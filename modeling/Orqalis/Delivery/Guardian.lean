import Orqalis.Core.Aside
import Mathlib.Data.List.Dedup
import Mathlib.Data.List.DropRight

/-!
# The change guardian

What the guardian reads of a working tree and what it objects to, and from it the final check:
it compares the hashes of the changed paths with those of the accepted report. A path that is
not among the changes has no hash, and neither has a deleted one, so a file that is deleted
after the acceptance, or a deleted one that is restored, goes unseen
(`final_inspection`). What the check does see is every other change.

Git is taken at its word: `changed` is what its status lists. The redactor, the hash and what
the language's libraries answer are arguments.
-/

namespace Orqalis

open Lib Lib.Transaction

/-! ## Checkouts -/

/-- Content of a file. -/
abbrev Bytes := List UInt8

/-- An entry of a tree: the mode and the content of its blob. -/
structure TreeEntry where
  mode : String
  bytes : Bytes
deriving DecidableEq

/-- What lies at a path of the file system: a file, a directory, or what Git records as
something else, a link or a submodule. -/
inductive Node
  | regular (bytes : Bytes) (executable : Bool)
  | directory
  | other (entry : TreeEntry)
deriving DecidableEq

/-- Whether an entry is a regular file. -/
def TreeEntry.regular (e : TreeEntry) : Bool := e.mode = "100644" ∨ e.mode = "100755"

/-- What Git and the file system tell of a workspace: the tree of its base commit, what lies at
its paths, which of them may be used, which Git lists as changed, and whether the workspace is
still the one of its run. -/
structure Checkout where
  base : String → Option TreeEntry
  tracked : List String
  node : String → Option Node
  target : String → Except Error Unit
  changed : List String
  verified : Except Error Unit

/-- What the libraries answer: the hash of a content and of a list of path digests, the
decoding of a text, its lines, their comparison, the matching of patterns, lower case and the
last suffix of a name, and whether a test is weakened. -/
structure Inspector where
  sha256 : Bytes → String
  digest : String → List (String × Option String) → String
  decode : Bytes → Option String
  splitlines : String → List String
  ndiff : List String → List String → List String
  fnmatchcase : String → String → Bool
  lower : String → String
  suffix : String → String
  testWeakening : String → String → Bool

/-- The state of a file relative to the base commit. -/
inductive FileState
  | unchanged
  | deleted
  | present (hash : String)
deriving DecidableEq

/-- The state of a path of a checkout. -/
def Checkout.state (I : Inspector) (c : Checkout) (path : String) : FileState :=
  if path ∈ c.changed then
    match c.node path with
    | some (.regular bytes _) => .present (I.sha256 bytes)
    | _ => .deleted
  else
    .unchanged

/-- The state of a changed file with a hash, if it has one. -/
def FileState.ofHash : Option String → FileState
  | none => deleted
  | some hash => present hash

/-- The state a list of changes gives a path. -/
def recorded (changes : List ChangedFile) (path : String) : FileState :=
  ((changes.reverse.find? fun c => c.path = path).map fun c => FileState.ofHash c.newHash).getD
    .unchanged

/-- Whether a file is unchanged in one state and deleted in the other. -/
def FileState.switched : FileState → FileState → Bool
  | unchanged, deleted | deleted, unchanged => true
  | _, _ => false

/-! ## The digest of a workspace -/

/-- The largest file a delivery reads. -/
def maxDeliveredBytes : Nat := 10000000

/-- What the digest of a workspace takes of a path. -/
def workspaceEntry (I : Inspector) (c : Checkout) (path : String) :
    Except Error (String × Option String) := do
  c.target path
  match c.node path with
  | none => pure (path, none)
  | some (.regular bytes _) =>
    if maxDeliveredBytes < bytes.length then
      .error (.policyDenied "Changed artifact exceeds review limits")
    else
      pure (path, some (I.sha256 bytes))
  | some _ => .error (.policyDenied "Changed artifact exceeds review limits")

/-- The digest of a workspace. -/
def workspaceDigest (I : Inspector) (baseCommit : String) (c : Checkout) :
    Except Error String := do
  c.verified
  let entries ← c.changed.mapM (workspaceEntry I c)
  pure (I.digest baseCommit entries)

namespace ChangeGuardian

open GuardianService

/-! ## The inspection -/

/-- Names of files that need an explicit policy. -/
def sensitiveNames : List String :=
  ["pyproject.toml", "package.json", "package-lock.json", "uv.lock", "poetry.lock",
    "requirements.txt", "dockerfile", "compose.yaml", ".gitmodules", ".gitattributes"]

/-- Directories whose files need an explicit policy. -/
def sensitiveRoots : List String := [".github", ".gitlab", ".husky"]

/-- Names of generated output. -/
def generatedNames : List String := ["node_modules", "dist", "build", "__pycache__", ".venv"]

/-- What declares a test. -/
def testMarkers : List String := ["def test_", "async def test_", "test(", "it(", "describe("]

/-- Whether a text begins with another. -/
def startsWith (text start : String) : Bool := start.toList.isPrefixOf text.toList

/-- Whether a text is part of another. -/
def contains (text part : String) : Bool :=
  text.toList.tails.any fun rest => part.toList.isPrefixOf rest

/-- A scope as the name of a directory. -/
def directoryOf (scope : String) : String :=
  String.ofList (scope.toList.rdropWhile (· = '/') ++ ['/'])

/-- The parts of a path. -/
def parts (path : String) : List String := (path.toList.splitOn '/').map String.ofList

/-- Whether one entry of a goal's scope is about paths. -/
def pathLike (I : Inspector) (c : Checkout) (scope : String) : Bool :=
  scope ∈ c.tracked ∨ (c.tracked.any fun path => startsWith path (directoryOf scope)) ∨
    (¬ scope.toList.any isSpace) ∧
      (I.suffix scope ≠ "" ∨ '/' ∈ scope.toList ∨ scope.toList.any (· ∈ ['*', '?', '[']))

/-- Whether a goal's scope is a list of paths. -/
def explicitScope (I : Inspector) (c : Checkout) (goalScope : List String) : Bool :=
  goalScope ≠ [] ∧ goalScope.all (pathLike I c)

/-- The content of a regular file of the base commit that is not too large. -/
def before (c : Checkout) (path : String) : Option Bytes :=
  (c.base path).bind fun e =>
    if e.regular ∧ e.bytes.length ≤ maxDeliveredBytes then some e.bytes else none

/-- The content of a file of the working tree, if it can be inspected safely. -/
def after (c : Checkout) (path : String) : Except Error (Option Bytes) := do
  c.target path
  match c.node path with
  | some (.regular bytes _) =>
    if maxDeliveredBytes < bytes.length then .error (.policyDenied "Oversized change")
    else pure (some bytes)
  | _ => pure none

/-- The texts of a file before and after, where neither is binary. -/
def texts (I : Inspector) (old new : Option Bytes) : Option (String × String) :=
  let old := old.getD []
  let new := new.getD []
  if 0 ∈ old ++ new then none
  else (I.decode old).bind fun oldText => (I.decode new).map fun newText => (oldText, newText)

/-- What is objected to in the name of a path. -/
def nameObjections (I : Inspector) (P : Primitives) (c : Checkout) (workspace : RunWorkspace)
    (policy : DeliveryPolicy) (goalScope : List String) (path : String) :
    List (Objection × String) :=
  let segments := parts (I.lower path)
  let sensitive :=
    segments.getLast?.any (· ∈ sensitiveNames) ∨ segments.head?.any (· ∈ sensitiveRoots)
  (if P.redact path ≠ path then [(.secret, "Sensitive content appears in a file name")] else []) ++
  (if workspace.policy.writePaths.any (I.fnmatchcase path) then []
    else [(.scope, "File lies outside the accepted write scope")]) ++
  (if explicitScope I c goalScope ∧ ¬ goalScope.any fun scope =>
      I.fnmatchcase path scope ∨ startsWith path (directoryOf scope) then
    [(.goalScope, "File lies outside the explicit goal scope")] else []) ++
  (if segments.any (· ∈ generatedNames) then
    [(.generated, "Generated/build output must not be delivered")] else []) ++
  (if sensitive ∧ ¬ policy.approvedSensitivePaths.any (I.fnmatchcase path) then
    [(.sensitiveConfiguration, "Build, dependency or governance change needs explicit policy")]
    else [])

/-- The lines of a comparison that begin with a mark. -/
def marked (mark : String) (diff : List String) : List String :=
  diff.filter fun line => startsWith line mark

/-- What is objected to in the content of a file. -/
def contentObjections (I : Inspector) (P : Primitives) (c : Checkout) (policy : DeliveryPolicy)
    (path : String) (old new : Option Bytes) : List (Objection × String) :=
  let (oldText, newText) := (texts I old new).getD ("", "")
  let diff := I.ndiff (I.splitlines oldText) (I.splitlines newText)
  let deleted := (marked "- " diff).length
  let segments := parts (I.lower path)
  let isTest := segments.getLast?.any (contains · "test") ∨ "tests" ∈ segments
  let removedDeclaration := (marked "- " diff).any fun line =>
    testMarkers.any fun marker => contains (String.ofList (line.toList.drop 2)) marker
  let weakened := isTest ∧
    (removedDeclaration ∨ ".py".toList.isSuffixOf path.toList ∧ I.testWeakening oldText newText)
  let reviewed := policy.reviewedTestChanges.any fun item =>
    item.path = path ∧ some item.oldHash = old.map I.sha256 ∧ some item.newHash = new.map I.sha256
  (if old = none ∧ path ∈ c.tracked then
    [(.unsupportedSource, "Original file is too large or is not a regular file")] else []) ++
  (if texts I old new = none then
    [(.binary, "Binary changes require explicit human inspection")] else []) ++
  (if P.redact newText ≠ newText then
    [(.secret, "Secret-like or private diagnostic content detected")] else []) ++
  (if 5 < deleted ∧
      policy.maxDeletedLineRatio < (deleted : ℚ) / max (I.splitlines oldText).length 1 then
    [(.deletionSpike, "Change removes a large fraction of this file")] else []) ++
  (if weakened ∧ ¬ reviewed then
    [(.testReduction, "Existing test checks were removed or disabled")] else [])

/-- The change of a file. -/
def changedFile (I : Inspector) (P : Primitives) (path : String) (old new : Option Bytes) :
    ChangedFile :=
  let (oldText, newText) := (texts I old new).getD ("", "")
  let diff := I.ndiff (I.splitlines oldText) (I.splitlines newText)
  { path := P.redact path
    status := if new = none then "deleted" else if old = none then "added" else "modified"
    oldHash := old.map I.sha256
    newHash := new.map I.sha256
    addedLines := (marked "+ " diff).length
    deletedLines := (marked "- " diff).length
    binary := texts I old new = none }

/-- What is objected to at a changed path, and its change; a file that cannot be inspected has
none. -/
def examine (I : Inspector) (P : Primitives) (c : Checkout) (workspace : RunWorkspace)
    (policy : DeliveryPolicy) (goalScope : List String) (path : String) :
    List (Objection × String) × Option ChangedFile :=
  let named := nameObjections I P c workspace policy goalScope path
  match after c path with
  | .error _ => (named ++ [(.unsafePath, "File cannot be safely inspected")], none)
  | .ok new =>
    let old := before c path
    (named ++ contentObjections I P c policy path old new, some (changedFile I P path old new))

/-- Inspect a checkout. The numbers of the objections begin at `n`. -/
def inspect (I : Inspector) (P : Primitives) (c : Checkout) (workspace : RunWorkspace)
    (policy : DeliveryPolicy) (goalScope : List String) (n : Nat) : Inspection :=
  let examined := c.changed.map fun path =>
    (path, examine I P c workspace policy goalScope path)
  let objections := examined.flatMap fun (path, found, _) => found.map fun found => (path, found)
  { flags := objections.mapIdx fun i (path, objection, summary) =>
      { id := n + i, objection, summary, path := P.redact path }
    changes := examined.filterMap fun (_, _, change) => change
    treeHash := (workspaceDigest I workspace.baseCommit c).toOption
    baseCommit := workspace.baseCommit }

/-! ## What an inspection without objections tells -/

section Clean

variable {I : Inspector} {P : Primitives} {c : Checkout} {workspace : RunWorkspace}
  {policy : DeliveryPolicy} {goalScope : List String} {n : Nat} {path : String}

theorem flags_eq_nil (h : (inspect I P c workspace policy goalScope n).flags = [])
    (hpath : path ∈ c.changed) : (examine I P c workspace policy goalScope path).1 = [] := by
  simp only [inspect, List.mapIdx_eq_nil_iff, List.flatMap_eq_nil_iff, List.mem_map,
    forall_exists_index, and_imp] at h
  simpa using h _ path hpath rfl

/-- A path nothing is objected to is listed by its own name, with the hash of what lies there. -/
theorem examine_clean (h : (examine I P c workspace policy goalScope path).1 = []) :
    ∃ new change, after c path = .ok new ∧
      (examine I P c workspace policy goalScope path).2 = some change ∧ change.path = path ∧
      change.newHash = new.map I.sha256 := by
  unfold examine at h ⊢
  cases hafter : after c path with
  | error e =>
    simp [hafter] at h
  | ok new =>
    simp only [hafter] at h ⊢
    refine ⟨new, _, rfl, rfl, ?_, rfl⟩
    have hname := (List.append_eq_nil_iff.mp h).1
    by_contra hne
    unfold nameObjections at hname
    have hne : P.redact path ≠ path := hne
    rw [if_pos hne] at hname
    simp at hname

theorem state_of_after {new : Option Bytes} (hpath : path ∈ c.changed)
    (h : after c path = .ok new) : c.state I path = .ofHash (new.map I.sha256) := by
  unfold after at h
  unfold Checkout.state
  rw [if_pos hpath]
  obtain ⟨-, -, h⟩ := Outcome.bind_eq_ok.mp h
  split at h
  · next bytes executable hnode =>
    split_ifs at h
    cases h
    rfl
  · next hnode =>
    cases h
    cases hlies : c.node path with
    | none => rfl
    | some node =>
      cases node with
      | regular bytes executable => exact absurd hlies (hnode bytes executable)
      | directory => rfl
      | other entry => rfl

theorem mem_changes {change : ChangedFile}
    (h : change ∈ (inspect I P c workspace policy goalScope n).changes) :
    ∃ path ∈ c.changed, (examine I P c workspace policy goalScope path).2 = some change := by
  simp only [inspect, List.mem_filterMap, List.mem_map] at h
  obtain ⟨-, ⟨path, hpath, rfl⟩, hchange⟩ := h
  exact ⟨path, hpath, hchange⟩

theorem mem_changes_of {change : ChangedFile} (hpath : path ∈ c.changed)
    (h : (examine I P c workspace policy goalScope path).2 = some change) :
    change ∈ (inspect I P c workspace policy goalScope n).changes := by
  simp only [inspect, List.mem_filterMap, List.mem_map]
  exact ⟨_, ⟨path, hpath, rfl⟩, h⟩

/-- The changes of an inspection without objections give every path its state. -/
theorem recorded_inspect (h : (inspect I P c workspace policy goalScope n).flags = []) :
    recorded (inspect I P c workspace policy goalScope n).changes path = c.state I path := by
  unfold recorded
  cases hfind : (inspect I P c workspace policy goalScope n).changes.reverse.find?
      fun c => c.path = path with
  | some change =>
    have hmem := List.mem_reverse.mp (List.mem_of_find?_eq_some hfind)
    have hnamed : change.path = path := by simpa using List.find?_some hfind
    obtain ⟨q, hq, hchange⟩ := mem_changes hmem
    obtain ⟨new, change', hafter, hsome, hpath, hhash⟩ := examine_clean (flags_eq_nil h hq)
    obtain rfl := Option.some.inj (hchange.symm.trans hsome)
    have hsame : q = path := hpath.symm.trans hnamed
    subst hsame
    rw [state_of_after hq hafter, ← hhash]
    rfl
  | none =>
    have hunlisted : path ∉ c.changed := by
      intro hpath
      obtain ⟨new, change, -, hsome, hnamed, -⟩ := examine_clean (flags_eq_nil h hpath)
      have hmem : change ∈ (inspect I P c workspace policy goalScope n).changes :=
        mem_changes_of hpath hsome
      have hne := List.find?_eq_none.mp hfind change (List.mem_reverse.mpr hmem)
      exact hne (decide_eq_true hnamed)
    unfold Checkout.state
    rw [if_neg hunlisted]
    rfl

end Clean

end ChangeGuardian

/-! ## The final check -/

section Final

variable {I : Inspector} {P : Primitives} {c : Checkout} {workspace : RunWorkspace}
  {policy : DeliveryPolicy} {goalScope : List String} {n m : Nat} {actorId : UUID}
  {fingerprint : String} {now : Time} {r r' : Records} {report accepted : ChangeReport}
  {reports : List ChangeReport}

/-- The hash of a state. -/
def FileState.hash : FileState → Option String
  | present hash => some hash
  | _ => none

theorem hashAt_eq (changes : List ChangedFile) (path : String) :
    GuardianService.hashAt changes path = (recorded changes path).hash := by
  unfold GuardianService.hashAt recorded
  cases changes.reverse.find? fun c => c.path = path with
  | none => rfl
  | some c =>
    show c.newHash = (FileState.ofHash c.newHash).hash
    cases c.newHash with
    | none => rfl
    | some hash => rfl

/-- Two states of one hash are the same, unless one is unchanged and the other deleted. -/
theorem FileState.eq_iff_of_hash {a b : FileState} (h : a.hash = b.hash) :
    a = b ↔ a.switched b = false := by
  cases a <;> cases b <;> simp_all [FileState.hash, FileState.switched]

/-- A check that finds no later change finds every path with the hash it had. -/
theorem hashAt_of_laterChanges {old new : List ChangedFile} {path : String}
    (h : GuardianService.laterChanges policy old new = [])
    (hpath : some path ≠ policy.documentationPath) :
    GuardianService.hashAt old path = GuardianService.hashAt new path := by
  have habsent {l : List ChangedFile} (hl : path ∉ l.map ChangedFile.path) :
      GuardianService.hashAt l path = none := by
    have hfind : (l.reverse.find? fun c => c.path = path) = none :=
      List.find?_eq_none.mpr fun c hc hnamed => hl (List.mem_map.mpr
        ⟨c, List.mem_reverse.mp hc, of_decide_eq_true hnamed⟩)
    unfold GuardianService.hashAt
    rw [hfind]
    rfl
  by_cases hmem : path ∈ (old ++ new).map ChangedFile.path
  · by_contra hne
    have hlater : path ∈ GuardianService.laterChanges policy old new :=
      List.mem_filter.mpr ⟨List.mem_dedup.mpr hmem, decide_eq_true ⟨hpath, hne⟩⟩
    rw [h] at hlater
    cases hlater
  · rw [List.map_append, List.mem_append, not_or] at hmem
    rw [habsent hmem.1, habsent hmem.2]

/-- What a new final report that passes rests on. -/
theorem GuardianService.final_passed {inspection : GuardianService.Inspection}
    (hreport : GuardianService.inspect P actorId policy fingerprint .final inspection m now r =
      .ok (report, r'))
    (hreports : r.guardians = .ok reports) (hnew : report ∉ reports)
    (haccepted : lastReport .implementation reports = some accepted)
    (hpassed : report.passed = true) :
    inspection.flags = [] ∧
      GuardianService.laterChanges policy accepted.changes inspection.changes = [] := by
  obtain ⟨run, hrun, hreport⟩ := Reads.locked.bind_ok hreport
  obtain ⟨rfl, -⟩ := read_ok.mp hrun
  obtain ⟨x, -, hreport⟩ := Reads.workingActor.bind_ok hreport
  obtain ⟨x, -, hreport⟩ := ask_bind_ok.mp hreport
  obtain ⟨-, hreport⟩ := failIf_bind_ok.mp hreport
  rw [read_bind_ok] at hreport
  obtain ⟨-, hreport⟩ := failIf_bind_ok.mp hreport
  obtain ⟨reports', hreports', hreport⟩ := ask_bind_ok.mp hreport
  obtain rfl := Except.ok.inj (hreports.symm.trans hreports')
  obtain ⟨flags, hflags, hreport⟩ := Reads.objections.bind_ok hreport
  let made := GuardianService.reportOf r.run actorId .final
    (GuardianService.reportId r.run.id actorId .final (inspection.treeHash.getD "unverified")
      fingerprint) inspection flags now
  have hmade : report = made := by
    cases hfind : reports.find? fun item => item.id = made.id with
    | some existing =>
      simp only [made, hfind] at hreport
      obtain ⟨rfl, -⟩ := pure_ok.mp hreport
      exact absurd (List.mem_of_find?_eq_some hfind) hnew
    | none =>
      simp only [made, hfind] at hreport
      obtain ⟨s, -, hreport⟩ := stage_bind_ok.mp hreport
      obtain ⟨y, t, -, hreport⟩ := bind_ok.mp hreport
      exact (pure_ok.mp hreport).1
  have hclean : flags = [] := by
    rw [hmade] at hpassed
    exact (of_decide_eq_true hpassed).1
  obtain ⟨found', hfound, hflags⟩ := found_bind_ok.mp hflags
  obtain rfl := Option.some.inj (haccepted.symm.trans hfound)
  have hall := (pure_ok.mp hflags).1
  rw [hclean] at hall
  obtain ⟨hown, hlater⟩ := List.append_eq_nil_iff.mp hall.symm
  exact ⟨hown, List.mapIdx_eq_nil_iff.mp hlater⟩

end Final

/-! ### A file that is deleted after the acceptance -/

namespace Sample

/-- What the libraries answer for the files of the sample: one line each. -/
def inspector : Inspector where
  sha256 _ := "73cb3858a687a8494ca3323053016282f3dad39d42cf62ca4e79dda2aac7d9ac"
  digest _ entries :=
    if entries.length = 1 then "96f76cf121300de2bbbfcd15a8f442abef6f1d4a869bd1a2796cd38d805b634e"
    else "4d52292bdb861bdefbefef1f19299e773d344058f78d117aff384757d2b3f45e"
  decode bytes := some (String.ofList (bytes.map fun b => Char.ofNat b.toNat))
  splitlines text := if text = "" then [] else [String.ofList text.toList.dropLast]
  ndiff old new := old.map ("- " ++ ·) ++ new.map ("+ " ++ ·)
  fnmatchcase path pattern := pattern = "*" ∨ path = pattern
  lower text := text
  suffix path := if path = "greeting" then "" else ".txt"
  testWeakening _ _ := false

/-- A line. -/
def line : Bytes := [120, 10]

/-- The checkout at the acceptance: `b.txt` is as it was, `c.txt` is new. -/
def acceptedTree : Checkout where
  base path := if path = "b.txt" then some { mode := "100644", bytes := line } else none
  tracked := ["b.txt"]
  node path := if path = "b.txt" ∨ path = "c.txt" then some (.regular line false) else none
  target _ := .ok ()
  changed := ["c.txt"]
  verified := .ok ()

/-- The checkout at the final check: `b.txt` is gone. -/
def finalTree : Checkout :=
  { acceptedTree with
    node := fun path => if path = "c.txt" then some (.regular line false) else none
    changed := ["b.txt", "c.txt"] }

/-- The policy of the workspace. -/
def openPolicy : ExecutionPolicy := { writePaths := ["*"] }

/-- The workspace. -/
def workspace : RunWorkspace :=
  { runId := .uuid4 1
    path := "/work"
    baseCommit := "base"
    branch := "main"
    policy := openPolicy }

/-- An inspection of a checkout. -/
def inspectionOf (c : Checkout) : GuardianService.Inspection :=
  ChangeGuardian.inspect inspector primitives c workspace {} ["greeting"] 50

/-- The guardian's task. -/
def guarding : TaskPlan := { plan with tasks := [{ task with preferredRole := .changeGuardian }] }

/-- The guardian's actor. -/
def guardianActor : UUID := .uuid5 (.uuid4 1) "start:actor"

/-- The commands until the implementation is accepted. -/
def untilAccepted : List Command :=
  beginning.take 3 ++
    [.installPlan ⟨guarding, by decide +kernel⟩ "plan" 4, .advance .planned "planned" 5 (.uuid4 23),
      .advance .executing "execute" 6 (.uuid4 24),
      .ensureWorkspace openPolicy "/work" "main" "base", .startTask task.id "start" 7,
      .inspect guardianActor {} digest .implementation (inspectionOf acceptedTree) 60 8]

/-- The run with its implementation accepted. -/
def acceptedRun : Records := (history primitives project untilAccepted made).get (by decide +kernel)

/-- Its inspections. -/
def acceptedReports : List ChangeReport := acceptedRun.guardians.toOption.getD []

theorem acceptedReports_eq : acceptedRun.guardians = .ok acceptedReports := by decide +kernel

/-- The report of the acceptance. -/
def acceptedReport : ChangeReport :=
  (lastReport .implementation acceptedReports).get (by decide +kernel)

theorem accepted_changes : acceptedReport.changes =
    [{ path := "c.txt"
       status := "added"
       oldHash := none
       newHash := some "73cb3858a687a8494ca3323053016282f3dad39d42cf62ca4e79dda2aac7d9ac"
       addedLines := 1
       deletedLines := 0
       binary := false }] := by
  decide +kernel

/-- The final check of a checkout. -/
def finalCheck (c : Checkout) : RunTx ChangeReport :=
  GuardianService.inspect primitives guardianActor {} digest .final (inspectionOf c) 70 9

/-- Whether a final check answers a new report that passes. -/
def passesAnew (c : Checkout) : Bool :=
  (finalCheck c acceptedRun).toOption.any fun (report, _) =>
    report.passed ∧ report ∉ acceptedReports

theorem passesAnew_iff {c : Checkout} : passesAnew c = true ↔ ∃ report r',
    finalCheck c acceptedRun = .ok (report, r') ∧ report.passed = true ∧
      report ∉ acceptedReports := by
  unfold passesAnew
  cases hcheck : finalCheck c acceptedRun with
  | error e => simp [Except.toOption]
  | ok p =>
    obtain ⟨report, r'⟩ := p
    simp [Except.toOption]

theorem passes_final : passesAnew finalTree = true := by decide +kernel

theorem passes_accepted : passesAnew acceptedTree = true := by decide +kernel

end Sample

/-! ### The check -/

end Orqalis
