import Mathlib.Data.List.Sort
import Mathlib.Data.String.Basic
import Mathlib.Logic.Function.Basic
import Orqalis.Delivery.Guardian

/-!
# Staging what is delivered

A worktree with its index, what Git's status tells of it, and the steps of a delivery: staging
the changes of a report, creating the commit and attaching it to the branch. The index is
edited path by path, in the order of the report, and a path of the index is never both a file
and a directory.

A delivery records the accepted tree exactly where the changes are changes of the working tree,
no file takes the place of a directory, and no executable bit differs from the base
(`delivered_iff`): the mode of a file is taken from the base commit, so a change of the bit is
lost and the worktree stays dirty; a path only the index differs at is no longer changed once
it is staged, so the second digest differs.
-/

namespace Orqalis

open Lib ChangeGuardian

/-! ## Worktrees -/

/-- A tree, or the index. -/
abbrev GitTree := Table (Prod.fst : String × TreeEntry → String)

/-- What a tree has at a path. -/
def GitTree.at (t : GitTree) (path : String) : Option TreeEntry := (t.get? path).map Prod.snd

/-- The paths of a tree. -/
def GitTree.paths (t : GitTree) : List String := t.entries.map Prod.fst

/-- Take a path out of the index. -/
def GitTree.remove (t : GitTree) (path : String) : GitTree := t.filter fun e => e.1 ≠ path

/-- Whether a path lies below another. -/
def below (path top : String) : Bool := startsWith path (top ++ "/")

/-- What Git records for what lies at a path. -/
def Node.entry : Node → Option TreeEntry
  | regular bytes executable =>
    some { mode := if executable then "100755" else "100644", bytes }
  | directory => none
  | other entry => some entry

/-- A worktree: where it is, what its branch is, the trees of the commits, its index, and what
lies at its paths. Only a directory has something below it. -/
structure Worktree where
  root : String
  head : String
  branch : Option String
  commits : String → GitTree
  index : GitTree
  nodes : Table (Prod.fst : String × Node → String)
  ignored : String → Bool
  target : String → Except Error Unit
  nested : ∀ x ∈ nodes.entries, ∀ y ∈ nodes.entries, below x.1 y.1 = true → y.2 = .directory

namespace Worktree

/-- What lies at a path. -/
def node (w : Worktree) (path : String) : Option Node := (w.nodes.get? path).map Prod.snd

/-- What Git would record of what lies at a path. -/
def lies (w : Worktree) (path : String) : Option TreeEntry := (w.node path).bind Node.entry

/-- The tree of the current commit. -/
def base (w : Worktree) : GitTree := w.commits w.head

/-- Whether the index differs at a path from the current commit, or what lies there from the
index. -/
def differs (w : Worktree) (path : String) : Bool :=
  w.index.at path ≠ w.base.at path ∨
    w.lies path ≠ w.index.at path ∧ ¬ (w.index.at path = none ∧ w.ignored path = true)

/-- The changed paths, in their order. -/
def status (w : Worktree) : List String :=
  ((w.index.paths ++ w.base.paths ++ w.nodes.entries.map Prod.fst).dedup.insertionSort
    (· ≤ ·)).filter w.differs

end Worktree

/-- Check that a worktree is still the workspace of its run. -/
def verifyWorkspace (w : Worktree) (workspace : RunWorkspace) : Except Error Unit :=
  if w.root ≠ workspace.path ∨ w.branch ≠ some workspace.branch then
    .error (.policyDenied "Workspace identity or branch changed")
  else if w.head ≠ workspace.baseCommit then
    .error (.policyDenied "Workspace HEAD changed outside the delivery service")
  else
    .ok ()

/-- What the guardian sees of a worktree. -/
def Worktree.checkout (w : Worktree) (workspace : RunWorkspace) : Checkout where
  base := (w.commits workspace.baseCommit).at
  tracked := (w.commits workspace.baseCommit).paths
  node := w.node
  target := w.target
  changed := w.status
  verified := verifyWorkspace w workspace

namespace GitDeliveryService

/-! ## The delivery -/

/-- The mode a tree lists for a path; a directory of it has a mode of its own. -/
def listedMode (t : GitTree) (path : String) : Option String :=
  match t.at path with
  | some e => some e.mode
  | none => if t.paths.any fun q => below q path then some "040000" else none

/-- Add a path to the index, or replace it there. A new path must neither lie below a file of
the index nor be a directory of it. -/
def cacheInfo (index : GitTree) (path : String) (entry : TreeEntry) : Except Error GitTree :=
  if index.at path = none ∧ index.paths.any fun q => below q path ∨ below path q then
    .error (.runtime "Git update-index failed with exit code 128")
  else
    .ok (index.put (path, entry))

/-- Stage one change. -/
def stageChange (w : Worktree) (base : GitTree) (index : GitTree) (change : ChangedFile) :
    Except Error GitTree :=
  if change.status = "deleted" then
    .ok (index.remove change.path)
  else do
    w.target change.path
    match w.node change.path with
    | some (.regular bytes executable) =>
      let mode := (listedMode base change.path).getD (if executable then "100755" else "100644")
      if mode ≠ "100644" ∧ mode ≠ "100755" then
        .error (.policyDenied "Only regular files may be delivered")
      else
        cacheInfo index change.path { mode, bytes }
    | _ => .error (.runtime "Git hash-object failed with exit code 128")

/-- Stage the changes of a report: the tree of the index and the worktree it belongs to.
`validated` is what came of the check of the branch. -/
def stage (I : Inspector) (w : Worktree) (workspace : RunWorkspace) (report : ChangeReport)
    (validated : Except Error Unit) : Except Error (GitTree × Worktree) := do
  validated
  if report.passed = false then
    .error (.policyDenied "Change Guardian approval does not match the current tree")
  else do
    let digest ← workspaceDigest I workspace.baseCommit (w.checkout workspace)
    if report.treeHash ≠ digest then
      .error (.policyDenied "Change Guardian approval does not match the current tree")
    else do
      let base := w.commits workspace.baseCommit
      let staged := (w.index.paths ++ base.paths).filter fun path => w.index.at path ≠ base.at path
      if staged.any fun path => path ∉ report.changes.map ChangedFile.path then
        .error (.policyDenied "Index contains unrelated changes")
      else do
        let index ← report.changes.foldlM (stageChange w base) w.index
        let w' := { w with index }
        let digest ← workspaceDigest I workspace.baseCommit (w'.checkout workspace)
        if digest ≠ report.treeHash then
          .error (.conflict "Workspace changed while staging")
        else
          pure (index, w')

/-- Create the commit of a tree. -/
def createCommit (w : Worktree) (tree : GitTree) (commit : String) : Worktree :=
  { w with commits := Function.update w.commits commit tree }

/-- Attach a commit to the branch of the workspace. -/
def attach (w : Worktree) (workspace : RunWorkspace) (commit : String)
    (validated : Except Error Unit) : Except Error Worktree := do
  validated
  if w.branch ≠ some workspace.branch then
    .error (.policyDenied "Workspace branch changed")
  else if w.head = commit then
    pure w
  else if w.head ≠ workspace.baseCommit then
    .error (.conflict "Branch advanced outside this run")
  else
    pure { w with head := commit }

end GitDeliveryService

/-! ## Trees -/

namespace GitTree

variable {t : GitTree} {path q : String} {e : TreeEntry}

theorem at_eq_none : t.at path = none ↔ path ∉ t.paths := by
  unfold GitTree.at GitTree.paths
  rw [Option.map_eq_none_iff, Table.get?_eq_none]
  constructor
  · intro h hmem
    obtain ⟨x, hx, hkey⟩ := List.mem_map.mp hmem
    exact h x hx hkey
  · intro h x hx hkey
    exact h (List.mem_map.mpr ⟨x, hx, hkey⟩)

theorem mem_paths : path ∈ t.paths ↔ t.at path ≠ none := by
  rw [Ne, at_eq_none, not_not]

theorem at_put : GitTree.at (t.put (path, e)) q = if path = q then some e else t.at q := by
  unfold GitTree.at
  rw [Table.get?_put]
  split_ifs with h
  · rfl
  · rfl

theorem at_remove : (t.remove path).at q = if path = q then none else t.at q := by
  split_ifs with h
  · subst h
    rw [at_eq_none]
    intro hmem
    obtain ⟨x, hx, hkey⟩ := List.mem_map.mp hmem
    have hx := (List.mem_filter.mp hx).2
    simp [hkey] at hx
  · unfold GitTree.at GitTree.remove
    congr 1
    cases hget : t.get? q with
    | none =>
      rw [Table.get?_eq_none] at hget ⊢
      exact fun x hx => hget x (Table.mem_filter.mp hx).1
    | some x =>
      obtain ⟨hx, hkey⟩ := Table.get?_eq_some.mp hget
      have hne : x.1 ≠ path := fun hpath => h (hpath.symm.trans hkey)
      exact Table.get?_eq_some.mpr ⟨Table.mem_filter.mpr ⟨hx, decide_eq_true hne⟩, hkey⟩

/-- Whether a tree has nothing below a path that it does not have. -/
def Clear (t : GitTree) (path : String) : Prop :=
  t.at path = none → ∀ q, below q path = true → t.at q = none

end GitTree

/-- What lies below a path comes after it. -/
theorem lt_of_below {path top : String} (h : below path top = true) : top < path := by
  unfold below ChangeGuardian.startsWith at h
  obtain ⟨rest, hrest⟩ := List.isPrefixOf_iff_prefix.mp h
  rw [String.toList_append, List.append_assoc] at hrest
  rw [String.lt_iff_toList_lt, ← hrest]
  show top.toList < top.toList ++ '/' :: rest
  induction top.toList with
  | nil => exact List.nil_lt_cons '/' rest
  | cons a l ih => exact List.cons_lt_cons_iff.mpr (.inr ⟨rfl, ih⟩)

/-! ## The status -/

namespace Worktree

variable {w w' : Worktree} {path : String}

theorem mem_status : path ∈ w.status ↔ w.differs path = true := by
  unfold status
  rw [List.mem_filter, List.mem_insertionSort, List.mem_dedup, and_iff_right_iff_imp]
  intro h
  rw [List.mem_append, List.mem_append, GitTree.mem_paths, GitTree.mem_paths]
  by_contra hnot
  rw [not_or, not_or, not_not, not_not] at hnot
  obtain ⟨⟨hindex, hbase⟩, hnode⟩ := hnot
  have hlies : w.lies path = none := by
    have hget : w.nodes.get? path = none :=
      Table.get?_eq_none.mpr fun x hx hkey => hnode (List.mem_map.mpr ⟨x, hx, hkey⟩)
    unfold lies node
    rw [hget]
    rfl
  simp [differs, hindex, hbase, hlies] at h

theorem status_pairwise : w.status.Pairwise (· < ·) := by
  have hsorted := List.pairwise_insertionSort (· ≤ ·)
    (w.index.paths ++ w.base.paths ++ w.nodes.entries.map Prod.fst).dedup
  have hnodup := (List.perm_insertionSort (· ≤ ·)
    (w.index.paths ++ w.base.paths ++ w.nodes.entries.map Prod.fst).dedup).nodup_iff.mpr
      (List.nodup_dedup _)
  exact ((hsorted.and hnodup).imp fun h => lt_of_le_of_ne h.1 h.2).filter _

/-- Worktrees that differ at the same paths have one status. -/
theorem status_congr (h : ∀ path, w.differs path = w'.differs path) : w.status = w'.status :=
  List.Pairwise.eq_of_mem_iff status_pairwise status_pairwise fun path => by
    rw [mem_status, mem_status, h path]

/-- A worktree without changes has what its index and its commit have. -/
theorem status_eq_nil : w.status = [] ↔ ∀ path, w.differs path = false := by
  constructor
  · intro h path
    rw [← Bool.not_eq_true, ← mem_status, h]
    exact List.not_mem_nil
  · intro h
    refine List.eq_nil_iff_forall_not_mem.mpr fun path hpath => ?_
    rw [mem_status, h path] at hpath
    cases hpath

end Worktree

/-! ## Staging a list of changes -/

namespace GitTree

/-- Record what is at a path, or that nothing is. -/
def set (t : GitTree) (path : String) (entry : Option TreeEntry) : GitTree :=
  match entry with
  | none => t.remove path
  | some e => t.put (path, e)

theorem at_set (t : GitTree) (path : String) (entry : Option TreeEntry) (q : String) :
    (t.set path entry).at q = if path = q then entry else t.at q := by
  cases entry with
  | none => exact at_remove
  | some e => exact at_put

theorem at_set_ne (t : GitTree) {path q : String} (entry : Option TreeEntry) (h : path ≠ q) :
    (t.set path entry).at q = t.at q := by
  rw [at_set, if_neg h]

/-- Whether a path is free of what lies below it stays as it is when an earlier one is set. -/
theorem clear_set {t : GitTree} {path q : String} (entry : Option TreeEntry) (h : path < q) :
    (t.set path entry).Clear q ↔ t.Clear q := by
  have hbelow (x : String) (hx : below x q = true) :
      (t.set path entry).at x = t.at x :=
    at_set_ne t entry (h.trans (lt_of_below hx)).ne
  unfold Clear
  rw [at_set_ne t entry h.ne]
  exact imp_congr_right fun _ => forall_congr' fun x => imp_congr_right fun hx => by
    rw [hbelow x hx]

end GitTree

namespace GitDeliveryService

section Changes

variable {w : Worktree} {base index index' : GitTree} {change : ChangedFile}
  {changes : List ChangedFile}

/-- What staging records at a path. -/
def stagedEntry (w : Worktree) (base : GitTree) (path : String) : Option TreeEntry :=
  match w.node path with
  | some (.regular bytes executable) =>
    some
      { mode := (listedMode base path).getD (if executable then "100755" else "100644")
        bytes }
  | _ => none

/-- Whether a change is one of what lies at its path: nothing, or a file. -/
structure Observed (w : Worktree) (change : ChangedFile) : Prop where
  target : w.target change.path = .ok ()
  deleted : change.status = "deleted" ↔ w.node change.path = none
  plain : w.node change.path = none ∨
    ∃ bytes executable, w.node change.path = some (.regular bytes executable)

/-- Whether a path can be staged: if a file lies there, then the base lists a file or nothing,
and the index has nothing below it. -/
def Stageable (w : Worktree) (base index : GitTree) (path : String) : Prop :=
  w.node path ≠ none →
    (∀ mode, listedMode base path = some mode → mode = "100644" ∨ mode = "100755") ∧
      index.Clear path

theorem cacheInfo_ok {path : String} {entry : TreeEntry} :
    cacheInfo index path entry = .ok index' ↔
      (index.at path = none →
        ∀ q, below q path = true ∨ below path q = true → index.at q = none) ∧
      index' = index.put (path, entry) := by
  unfold cacheInfo
  rw [Outcome.ite_error_eq_ok, Except.ok.injEq, @eq_comm GitTree]
  refine and_congr_left fun _ => ?_
  rw [not_and]
  refine imp_congr_right fun _ => ?_
  rw [List.any_eq_true]
  constructor
  · intro h q hq
    by_contra hat
    exact h ⟨q, GitTree.mem_paths.mpr hat, decide_eq_true hq⟩
  · rintro h ⟨q, hmem, hq⟩
    exact GitTree.mem_paths.mp hmem (h q (of_decide_eq_true hq))

/-- A change is staged exactly where its path can be, and its path is then set. -/
theorem stageChange_ok (hchange : Observed w change)
    (habove : w.node change.path ≠ none →
      ∀ q, below change.path q = true → index.at q = none) :
    stageChange w base index change = .ok index' ↔
      Stageable w base index change.path ∧
        index' = index.set change.path (stagedEntry w base change.path) := by
  unfold stageChange Stageable stagedEntry
  rcases hchange.plain with hnode | ⟨bytes, executable, hnode⟩
  · rw [if_pos (hchange.deleted.mpr hnode), hnode, Except.ok.injEq, eq_comm]
    exact (and_iff_right fun h => absurd rfl h).symm
  · have hlies : w.node change.path ≠ none := by
      rw [hnode]
      exact Option.some_ne_none _
    have hmode {mode : String} : ¬ (mode ≠ "100644" ∧ mode ≠ "100755") ↔
        mode = "100644" ∨ mode = "100755" := by
      rw [not_and_or, not_not, not_not]
    rw [if_neg (mt hchange.deleted.mp hlies), hchange.target, Outcome.ok_bind, hnode]
    dsimp only
    rw [Outcome.ite_error_eq_ok, hmode, cacheInfo_ok, ← and_assoc]
    refine and_congr_left fun _ => ?_
    rw [imp_iff_right (Option.some_ne_none _)]
    refine and_congr ?_ ?_
    · cases listedMode base change.path with
      | none => cases executable <;> simp
      | some mode => simp
    · unfold GitTree.Clear
      refine imp_congr_right fun _ => ?_
      exact ⟨fun h q hq => h q (.inl hq),
        fun h q hq => hq.elim (h q) (habove hlies q)⟩

/-- What has something below it is a directory. -/
theorem directory_above {path q : String} {x y : Node} (hx : w.node path = some x)
    (hy : w.node q = some y) (hbelow : below path q = true) : y = .directory := by
  obtain ⟨⟨p, n⟩, hp, hn⟩ := Option.map_eq_some_iff.mp hx
  obtain ⟨⟨p', n'⟩, hp', hn'⟩ := Option.map_eq_some_iff.mp hy
  obtain ⟨hmem, rfl⟩ := Table.get?_eq_some.mp hp
  obtain ⟨hmem', rfl⟩ := Table.get?_eq_some.mp hp'
  exact hn'.symm.trans (w.nested _ hmem _ hmem' hbelow)

/-- Nothing lies below a file that is staged. -/
theorem not_below_staged {path q : String} (hpath : w.node path ≠ none)
    (hq : stagedEntry w base q ≠ none) : ¬ below path q = true := by
  intro hbelow
  obtain ⟨x, hx⟩ := Option.ne_none_iff_exists'.mp hpath
  unfold stagedEntry at hq
  cases hnode : w.node q with
  | none => exact hq (by rw [hnode])
  | some y =>
    obtain rfl := directory_above hx hnode hbelow
    exact hq (by rw [hnode])

/-- A sorted list of changes is staged exactly where each path can be, and its paths are then
set. What the index has above a file is deleted before the file is added. -/
theorem foldlM_stageChange (base index index' : GitTree)
    (hchanges : ∀ change ∈ changes, Observed w change)
    (hsorted : (changes.map ChangedFile.path).Pairwise (· < ·))
    (habove : ∀ change ∈ changes, w.node change.path ≠ none →
      ∀ q, below change.path q = true → index.at q ≠ none →
        q ∈ changes.map ChangedFile.path) :
    changes.foldlM (stageChange w base) index = .ok index' ↔
      (∀ change ∈ changes, Stageable w base index change.path) ∧
        index' = changes.foldl
          (fun index change => index.set change.path (stagedEntry w base change.path)) index := by
  induction changes generalizing index with
  | nil =>
    rw [List.foldlM_nil, List.foldl_nil]
    show (Except.ok index : Except Error GitTree) = .ok index' ↔ _
    rw [Except.ok.injEq, eq_comm]
    exact (and_iff_right fun _ h => absurd h List.not_mem_nil).symm
  | cons change changes ih =>
    rw [List.map_cons, List.pairwise_cons] at hsorted
    obtain ⟨hfirst, hsorted⟩ := hsorted
    have hlater (c : ChangedFile) (hc : c ∈ changes) : change.path < c.path :=
      hfirst c.path (List.mem_map_of_mem hc)
    have hhead : w.node change.path ≠ none →
        ∀ q, below change.path q = true → index.at q = none := by
      intro hlies q hq
      by_contra hat
      rcases List.mem_cons.mp (habove change List.mem_cons_self hlies q hq hat) with rfl | hmem
      · exact lt_irrefl _ (lt_of_below hq)
      · exact lt_asymm (lt_of_below hq) (hfirst q hmem)
    rw [List.foldlM_cons, Outcome.bind_eq_ok, List.foldl_cons]
    simp only [stageChange_ok (hchanges change List.mem_cons_self) hhead]
    have hrest : ∀ c ∈ changes, w.node c.path ≠ none → ∀ q, below c.path q = true →
        (index.set change.path (stagedEntry w base change.path)).at q ≠ none →
          q ∈ changes.map ChangedFile.path := by
      intro c hc hlies q hq hat
      rw [GitTree.at_set] at hat
      split_ifs at hat with hsame
      · subst hsame
        exact absurd hq (not_below_staged hlies hat)
      · rcases List.mem_cons.mp (habove c (List.mem_cons_of_mem _ hc) hlies q hq hat) with
          hsame' | hmem
        · exact absurd hsame'.symm hsame
        · exact hmem
    have hstageable : (∀ c ∈ changes,
        Stageable w base (index.set change.path (stagedEntry w base change.path)) c.path) ↔
        ∀ c ∈ changes, Stageable w base index c.path :=
      forall_congr' fun c => imp_congr_right fun hc => imp_congr_right fun _ =>
        and_congr_right fun _ => GitTree.clear_set _ (hlater c hc)
    constructor
    · rintro ⟨index₁, ⟨hready, rfl⟩, hrun⟩
      obtain ⟨hall, hindex⟩ :=
        (ih _ (fun c hc => hchanges c (List.mem_cons_of_mem _ hc)) hsorted hrest).mp hrun
      exact ⟨List.forall_mem_cons.mpr ⟨hready, hstageable.mp hall⟩, hindex⟩
    · rintro ⟨hall, hindex⟩
      obtain ⟨hready, hall⟩ := List.forall_mem_cons.mp hall
      exact ⟨_, ⟨hready, rfl⟩,
        (ih _ (fun c hc => hchanges c (List.mem_cons_of_mem _ hc)) hsorted hrest).mpr
          ⟨hstageable.mpr hall, hindex⟩⟩

/-- After the stores of a list of paths, each of them has its entry. -/
theorem at_foldl_set (f : String → Option TreeEntry) (l : List ChangedFile) (index : GitTree)
    (q : String) :
    (l.foldl (fun index change => index.set change.path (f change.path)) index).at q =
      if q ∈ l.map ChangedFile.path then f q else index.at q := by
  induction l generalizing index with
  | nil => rfl
  | cons change l ih =>
    rw [List.foldl_cons, ih, GitTree.at_set, List.map_cons]
    by_cases hl : q ∈ l.map ChangedFile.path
    · rw [if_pos hl, if_pos (List.mem_cons_of_mem _ hl)]
    · rw [if_neg hl]
      by_cases hq : change.path = q
      · rw [if_pos hq, if_pos (hq ▸ List.mem_cons_self), hq]
      · have hnot : q ∉ change.path :: l.map ChangedFile.path := by
          rw [List.mem_cons, not_or]
          exact ⟨Ne.symm hq, hl⟩
        rw [if_neg hq, if_neg hnot]

end Changes

end GitDeliveryService

/-! ## What an approved report tells -/

/-- Whether an inspection approves of the tree of a report. -/
structure Approves (inspection : GuardianService.Inspection) (report : ChangeReport) : Prop where
  passed : report.passed = true
  clean : inspection.flags = []
  treeHash : inspection.treeHash = some report.treeHash
  changes : report.changes = inspection.changes

section Approved

variable {I : Inspector} {P : Primitives} {c : Checkout} {workspace : RunWorkspace}
  {policy : DeliveryPolicy} {goalScope : List String} {n : Nat} {path baseCommit digest : String}
  {entries : List (String × Option String)} {hash : Option String} {change : ChangedFile}

/-- An inspection without objections lists the changed paths. -/
theorem changes_paths (h : (inspect I P c workspace policy goalScope n).flags = []) :
    (inspect I P c workspace policy goalScope n).changes.map ChangedFile.path = c.changed := by
  have hall : ∀ path ∈ c.changed, (examine I P c workspace policy goalScope path).2.map
      ChangedFile.path = some path := by
    intro path hpath
    obtain ⟨new, change, -, hsome, hnamed, -⟩ := examine_clean (flags_eq_nil h hpath)
    rw [hsome, Option.map_some, hnamed]
  unfold inspect
  dsimp only
  rw [List.filterMap_map, List.map_filterMap]
  calc c.changed.filterMap
        (fun path => (examine I P c workspace policy goalScope path).2.map ChangedFile.path)
      = c.changed.filterMap some := List.filterMap_congr hall
    _ = c.changed := List.filterMap_some

/-- A change is one of a deleted file exactly where nothing could be read. -/
theorem status_deleted {new : Option Bytes} (hafter : ChangeGuardian.after c path = .ok new)
    (h : (examine I P c workspace policy goalScope path).2 = some change) :
    change.status = "deleted" ↔ new = none := by
  unfold examine at h
  rw [hafter] at h
  obtain rfl := Option.some.inj h
  show (if new = none then "deleted" else
    if ChangeGuardian.before c path = none then "added" else "modified") = "deleted" ↔ new = none
  split_ifs with hnew hold
  · exact iff_of_true rfl hnew
  · exact iff_of_false (by decide) hnew
  · exact iff_of_false (by decide) hnew

theorem workspaceEntry_ok {q : String} (h : workspaceEntry I c path = .ok (q, hash)) :
    q = path ∧ c.target path = .ok () ∧
      (c.node path = none ∧ hash = none ∨ ∃ bytes executable,
        c.node path = some (.regular bytes executable) ∧ hash = some (I.sha256 bytes)) := by
  obtain ⟨⟨⟩, htarget, h⟩ := Outcome.bind_eq_ok.mp h
  cases hnode : c.node path with
  | none =>
    rw [hnode] at h
    cases h
    exact ⟨rfl, htarget, .inl ⟨rfl, rfl⟩⟩
  | some node =>
    rw [hnode] at h
    cases node with
    | regular bytes executable =>
      obtain ⟨-, h⟩ := Outcome.ite_error_eq_ok.mp h
      cases h
      exact ⟨rfl, htarget, .inr ⟨bytes, executable, rfl, rfl⟩⟩
    | directory => cases h
    | other entry => cases h

/-- A path is read as nothing exactly where its entry has no hash. -/
theorem after_eq_none {q : String} {new : Option Bytes}
    (hafter : ChangeGuardian.after c path = .ok new)
    (hentry : workspaceEntry I c path = .ok (q, hash)) : new = none ↔ hash = none := by
  obtain ⟨⟨⟩, -, hafter⟩ := Outcome.bind_eq_ok.mp hafter
  obtain ⟨-, -, ⟨hnode, rfl⟩ | ⟨bytes, executable, hnode, rfl⟩⟩ := workspaceEntry_ok hentry
  · rw [hnode] at hafter
    cases hafter
    exact iff_of_true rfl rfl
  · rw [hnode] at hafter
    obtain ⟨-, hafter⟩ := Outcome.ite_error_eq_ok.mp hafter
    cases hafter
    exact iff_of_false (Option.some_ne_none _) (Option.some_ne_none _)

theorem workspaceDigest_ok : workspaceDigest I baseCommit c = .ok digest ↔
    c.verified = .ok () ∧ ∃ entries, c.changed.mapM (workspaceEntry I c) = .ok entries ∧
      I.digest baseCommit entries = digest := by
  unfold workspaceDigest
  rw [Outcome.bind_eq_ok]
  constructor
  · rintro ⟨⟨⟩, hverified, h⟩
    obtain ⟨entries, hentries, h⟩ := Outcome.bind_eq_ok.mp h
    cases h
    exact ⟨hverified, entries, hentries, rfl⟩
  · rintro ⟨hverified, entries, hentries, rfl⟩
    exact ⟨(), hverified, Outcome.bind_eq_ok.mpr ⟨entries, hentries, rfl⟩⟩

/-- The entries of a digest are those of the changed paths, in their order. -/
theorem entries_paths (h : c.changed.mapM (workspaceEntry I c) = .ok entries) :
    entries.map Prod.fst = c.changed := by
  generalize c.changed = paths at h ⊢
  have hall := Outcome.forall₂_of_mapM_eq_ok h
  clear h
  induction hall with
  | nil => rfl
  | cons hentry _ ih =>
    rw [List.map_cons, ih, (workspaceEntry_ok hentry).1]

/-- Every changed path has an entry. -/
theorem exists_entry (h : c.changed.mapM (workspaceEntry I c) = .ok entries)
    (hpath : path ∈ c.changed) : ∃ hash, (path, hash) ∈ entries ∧
      workspaceEntry I c path = .ok (path, hash) := by
  rw [← entries_paths h] at hpath
  obtain ⟨⟨q, hash⟩, hmem, rfl⟩ := List.mem_map.mp hpath
  obtain ⟨q', -, hentry⟩ := Outcome.exists_of_mapM_eq_ok h hmem
  obtain rfl := (workspaceEntry_ok hentry).1
  exact ⟨hash, hmem, hentry⟩

/-- The paths of the entries are distinct where the changed paths are. -/
theorem entry_unique {hash' : Option String} (hnodup : (entries.map Prod.fst).Nodup)
    (h : (path, hash) ∈ entries) (h' : (path, hash') ∈ entries) : hash = hash' :=
  congrArg Prod.snd (List.inj_on_of_nodup_map hnodup h h' rfl)

/-- The changes of an approved report are those of a worktree that has the hash of the report,
unless two lists of entries share that hash. -/
theorem observed {w : Worktree} {report : ChangeReport}
    (happroves : Approves (inspect I P c workspace policy goalScope n) report)
    (hdigest : workspaceDigest I workspace.baseCommit (w.checkout workspace) = .ok report.treeHash)
    (hcollision : ∀ entries entries', I.digest workspace.baseCommit entries = report.treeHash →
      I.digest workspace.baseCommit entries' = report.treeHash → entries = entries') :
    report.changes.map ChangedFile.path = w.status ∧
      ∀ change ∈ report.changes, GitDeliveryService.Observed w change := by
  have haccepted : workspaceDigest I workspace.baseCommit c = .ok report.treeHash := by
    have htree : (workspaceDigest I workspace.baseCommit c).toOption = some report.treeHash :=
      happroves.treeHash
    cases hdigest : workspaceDigest I workspace.baseCommit c with
    | error e =>
      rw [hdigest] at htree
      cases htree
    | ok digest =>
      rw [hdigest] at htree
      exact congrArg Except.ok (Option.some.inj htree)
  obtain ⟨-, entries, hentries, hhash⟩ := workspaceDigest_ok.mp haccepted
  obtain ⟨-, entries', hentries', hhash'⟩ := workspaceDigest_ok.mp hdigest
  obtain rfl := hcollision entries entries' hhash hhash'
  have hlisted : c.changed = w.status :=
    (entries_paths hentries).symm.trans (entries_paths hentries')
  have hnodup : (entries.map Prod.fst).Nodup := by
    rw [entries_paths hentries']
    exact (show w.status.Pairwise (· < ·) from Worktree.status_pairwise).imp fun h => h.ne
  rw [happroves.changes, changes_paths happroves.clean, hlisted]
  refine ⟨rfl, fun change hchange => ?_⟩
  obtain ⟨path, hpath, hexamined⟩ := mem_changes hchange
  obtain ⟨new, change', hafter, hsome, hnamed, -⟩ :=
    examine_clean (flags_eq_nil happroves.clean hpath)
  obtain rfl := Option.some.inj (hexamined.symm.trans hsome)
  have hstatus := status_deleted hafter hexamined
  obtain ⟨hash, hmem, hentry⟩ := exists_entry hentries hpath
  obtain ⟨hash', hmem', hentry'⟩ := exists_entry hentries' (hlisted ▸ hpath : path ∈ w.status)
  obtain rfl := entry_unique hnodup hmem hmem'
  obtain ⟨-, htarget, hlies⟩ := workspaceEntry_ok hentry'
  subst hnamed
  refine ⟨htarget, ?_, ?_⟩
  · rw [hstatus, after_eq_none hafter hentry]
    show hash = none ↔ w.node change.path = none
    rcases hlies with ⟨hnode, hnone⟩ | ⟨bytes, executable, hnode, hsome⟩
    · exact iff_of_true hnone hnode
    · have hfile : w.node change.path = some (.regular bytes executable) := hnode
      rw [hsome, hfile]
      exact iff_of_false (Option.some_ne_none _) (Option.some_ne_none _)
  · exact hlies.imp And.left fun ⟨bytes, executable, hnode, _⟩ => ⟨bytes, executable, hnode⟩

end Approved

/-! ## What a delivery records -/

/-- Whether a tree is the base of a worktree with the changes of a report: it has what the base
has at every other path, and at those of the report nothing where the file is deleted, and else
what lies there. -/
structure Recorded (w : Worktree) (report : ChangeReport) (tree : GitTree) : Prop where
  others : ∀ path ∉ report.changes.map ChangedFile.path, tree.at path = w.base.at path
  deleted : ∀ change ∈ report.changes, tree.at change.path = none ↔ change.status = "deleted"
  present : ∀ change ∈ report.changes, change.status ≠ "deleted" →
    tree.at change.path = w.lies change.path

/-- Whether staging succeeds with the accepted tree, and any commit of it leaves the worktree
clean once it is attached. -/
def Delivered (I : Inspector) (w : Worktree) (workspace : RunWorkspace) (report : ChangeReport) :
    Prop :=
  ∃ tree w', GitDeliveryService.stage I w workspace report (.ok ()) = .ok (tree, w') ∧
    Recorded w report tree ∧
    ∀ commit ≠ workspace.baseCommit, ∃ w'',
      GitDeliveryService.attach (GitDeliveryService.createCommit w' tree commit) workspace commit
        (.ok ()) = .ok w'' ∧ w''.status = []

/-- Whether a changed path can be delivered: what lies there is a change of the base; if a file
lies there, neither the base nor the index has anything below it; and a file of the base has its
mode. -/
structure Deliverable (w : Worktree) (path : String) : Prop where
  changed : w.lies path ≠ w.base.at path
  clear : w.lies path ≠ none → w.base.Clear path ∧ w.index.Clear path
  mode : ∀ e e₀, w.lies path = some e → w.base.at path = some e₀ → e₀.mode = e.mode

namespace GitDeliveryService

section Delivery

variable {I : Inspector} {w : Worktree} {workspace : RunWorkspace} {report : ChangeReport}
  {path : String} {change : ChangedFile}

theorem listedMode_some {t : GitTree} {e : TreeEntry} (h : t.at path = some e) :
    listedMode t path = some e.mode := by
  unfold listedMode
  rw [h]

theorem listedMode_none {t : GitTree} (h : t.at path = none) (hclear : t.Clear path) :
    listedMode t path = none := by
  unfold listedMode
  rw [h]
  dsimp only
  rw [if_neg]
  intro hany
  obtain ⟨q, hq, hbelow⟩ := List.any_eq_true.mp hany
  exact GitTree.mem_paths.mp hq (hclear h q hbelow)

theorem listedMode_directory {t : GitTree} (h : t.at path = none) (hclear : ¬ t.Clear path) :
    listedMode t path = some "040000" := by
  unfold listedMode
  rw [h]
  dsimp only
  rw [if_pos]
  unfold GitTree.Clear at hclear
  push Not at hclear
  obtain ⟨-, q, hbelow, hq⟩ := hclear
  exact List.any_eq_true.mpr ⟨q, GitTree.mem_paths.mpr hq, hbelow⟩

/-- A file is staged as it lies there exactly where it takes the place of no directory and has
the mode of the base. -/
theorem file_staged {base index : GitTree} {bytes : Bytes} {executable : Bool}
    (hnode : w.node path = some (.regular bytes executable)) :
    Stageable w base index path ∧ stagedEntry w base path = w.lies path ↔
      (base.Clear path ∧ index.Clear path) ∧
        ∀ e₀, base.at path = some e₀ → e₀.mode = if executable then "100755" else "100644" := by
  have hlies : w.lies path =
      some { mode := if executable then "100755" else "100644", bytes } := by
    unfold Worktree.lies
    rw [hnode]
    rfl
  have hfile : w.node path ≠ none := by
    rw [hnode]
    exact Option.some_ne_none _
  unfold Stageable stagedEntry
  rw [imp_iff_right hfile, hlies, hnode]
  dsimp only
  rw [Option.some.injEq, TreeEntry.mk.injEq, and_iff_left rfl]
  cases hat : base.at path with
  | some e₀ =>
    have hclear : base.Clear path := fun hnone => by
      rw [hat] at hnone
      cases hnone
    rw [listedMode_some hat]
    constructor
    · rintro ⟨⟨-, hindex⟩, hmode⟩
      exact ⟨⟨hclear, hindex⟩, fun e he => Option.some.inj he ▸ hmode⟩
    · rintro ⟨⟨-, hindex⟩, hmode⟩
      have hmode := hmode e₀ rfl
      refine ⟨⟨fun mode hm => ?_, hindex⟩, hmode⟩
      rw [← Option.some.inj hm, hmode]
      cases executable with
      | true => exact .inr rfl
      | false => exact .inl rfl
  | none =>
    by_cases hclear : base.Clear path
    · rw [listedMode_none hat hclear]
      constructor
      · rintro ⟨⟨-, hindex⟩, -⟩
        exact ⟨⟨hclear, hindex⟩, fun e he => absurd he.symm (Option.some_ne_none e)⟩
      · rintro ⟨⟨-, hindex⟩, -⟩
        exact ⟨⟨fun mode hm => absurd hm.symm (Option.some_ne_none mode), hindex⟩, rfl⟩
    · rw [listedMode_directory hat hclear]
      refine iff_of_false ?_ fun h => hclear h.1.1
      rintro ⟨⟨hmode, -⟩, -⟩
      rcases hmode "040000" rfl with h | h
      · exact absurd h (by decide)
      · exact absurd h (by decide)

/-- A changed path can be delivered exactly where it is a change of the base and is staged as it
lies there. -/
theorem deliverable_iff (hchange : Observed w change) :
    Deliverable w change.path ↔ w.lies change.path ≠ w.base.at change.path ∧
      Stageable w w.base w.index change.path ∧
        stagedEntry w w.base change.path = w.lies change.path := by
  rcases hchange.plain with hnode | ⟨bytes, executable, hnode⟩
  · have hlies : w.lies change.path = none := by
      unfold Worktree.lies
      rw [hnode]
      rfl
    have hstaged : stagedEntry w w.base change.path = w.lies change.path := by
      unfold stagedEntry
      rw [hlies, hnode]
    constructor
    · rintro ⟨hchanged, -, -⟩
      exact ⟨hchanged, fun h => absurd hnode h, hstaged⟩
    · rintro ⟨hchanged, -, -⟩
      refine ⟨hchanged, fun h => absurd hlies h, fun e e₀ he => ?_⟩
      rw [hlies] at he
      cases he
  · have hlies : w.lies change.path =
        some { mode := if executable then "100755" else "100644", bytes } := by
      unfold Worktree.lies
      rw [hnode]
      rfl
    rw [file_staged hnode]
    constructor
    · rintro ⟨hchanged, hclear, hmode⟩
      refine ⟨hchanged, hclear ?_, fun e₀ => hmode _ e₀ hlies⟩
      rw [hlies]
      exact Option.some_ne_none _
    · rintro ⟨hchanged, hclear, hmode⟩
      refine ⟨hchanged, fun _ => hclear, fun e e₀ he he₀ => ?_⟩
      obtain rfl := Option.some.inj (hlies.symm.trans he)
      exact hmode e₀ he₀

/-- A worktree whose index changes keeps the rest of what the guardian sees of it. -/
theorem checkout_eq {w' : Worktree} (index : GitTree) (hw' : w' = { w with index })
    (hstatus : w'.status = w.status) : w'.checkout workspace = w.checkout workspace := by
  subst hw'
  unfold Worktree.checkout
  rw [hstatus]
  rfl

/-- What a stage that succeeds went through. -/
theorem exists_fold_of_stage {tree : GitTree} {w' : Worktree}
    (h : stage I w workspace report (.ok ()) = .ok (tree, w')) :
    report.changes.foldlM (stageChange w (w.commits workspace.baseCommit)) w.index = .ok tree ∧
      w' = { w with index := tree } ∧
      workspaceDigest I workspace.baseCommit (w'.checkout workspace) = .ok report.treeHash := by
  unfold stage at h
  rw [Outcome.ok_bind, Outcome.ite_error_eq_ok] at h
  obtain ⟨digest, -, h⟩ := Outcome.bind_eq_ok.mp h.2
  obtain ⟨-, h⟩ := Outcome.ite_error_eq_ok.mp h
  obtain ⟨-, h⟩ := Outcome.ite_error_eq_ok.mp h
  obtain ⟨index, hindex, h⟩ := Outcome.bind_eq_ok.mp h
  obtain ⟨digest', hdigest', h⟩ := Outcome.bind_eq_ok.mp h
  obtain ⟨hsame, h⟩ := Outcome.ite_error_eq_ok.mp h
  cases h
  exact ⟨hindex, rfl, hdigest'.trans (congrArg Except.ok (not_not.mp hsame))⟩

/-- A stage succeeds if the changes are those of the worktree and the second digest is as the
first. -/
theorem stage_of_ok {tree : GitTree} (hpassed : report.passed = true)
    (hpaths : report.changes.map ChangedFile.path = w.status)
    (hdigest : workspaceDigest I workspace.baseCommit (w.checkout workspace) = .ok report.treeHash)
    (hhead : w.head = workspace.baseCommit)
    (hindex : report.changes.foldlM (stageChange w w.base) w.index = .ok tree)
    (hstatus : ({ w with index := tree } : Worktree).status = w.status) :
    stage I w workspace report (.ok ()) = .ok (tree, { w with index := tree }) := by
  have hbase : w.commits workspace.baseCommit = w.base := by
    unfold Worktree.base
    rw [hhead]
  have hrelated : ¬ (((w.index.paths ++ w.base.paths).filter fun path =>
      w.index.at path ≠ w.base.at path).any fun path =>
        path ∉ report.changes.map ChangedFile.path) = true := by
    intro hany
    obtain ⟨path, hmem, hnot⟩ := List.any_eq_true.mp hany
    have hdiffers : w.differs path = true :=
      decide_eq_true (.inl (of_decide_eq_true (List.mem_filter.mp hmem).2))
    exact of_decide_eq_true hnot (hpaths ▸ Worktree.mem_status.mpr hdiffers)
  unfold stage
  rw [Outcome.ok_bind, if_neg (by rw [hpassed]; decide), hdigest, Outcome.ok_bind,
    if_neg (not_not.mpr rfl), hbase]
  dsimp only
  rw [if_neg hrelated, hindex, Outcome.ok_bind, checkout_eq tree rfl hstatus, hdigest,
    Outcome.ok_bind, if_neg (not_not.mpr rfl)]
  rfl

/-- A worktree whose index has the base with what lies at the changed paths is clean at a commit
of the index. -/
theorem attached_clean {w' : Worktree} {tree : GitTree} {commit : String}
    (hw' : w' = { w with index := tree }) (hhead : w.head = workspace.baseCommit)
    (hbranch : w.branch = some workspace.branch) (hcommit : commit ≠ workspace.baseCommit)
    (htree : ∀ path, tree.at path = if path ∈ w.status then w.lies path else w.index.at path) :
    ∃ w'', attach (createCommit w' tree commit) workspace commit (.ok ()) = .ok w'' ∧
      w''.status = [] := by
  subst hw'
  refine ⟨{ createCommit { w with index := tree } tree commit with head := commit }, ?_, ?_⟩
  · unfold attach createCommit
    rw [Outcome.ok_bind]
    dsimp only
    rw [if_neg (not_not.mpr hbranch), if_neg (hhead ▸ hcommit.symm), if_neg (not_not.mpr hhead)]
    rfl
  · rw [Worktree.status_eq_nil]
    intro path
    have hbase : ({ createCommit { w with index := tree } tree commit with
        head := commit } : Worktree).base = tree := Function.update_self _ _ _
    unfold Worktree.differs
    rw [hbase]
    show decide (tree.at path ≠ tree.at path ∨ w.lies path ≠ tree.at path ∧
      ¬ (tree.at path = none ∧ w.ignored path = true)) = false
    rw [decide_eq_false_iff_not, not_or]
    refine ⟨not_not.mpr rfl, ?_⟩
    rw [htree path]
    by_cases hpath : path ∈ w.status
    · rw [if_pos hpath]
      exact fun h => h.1 rfl
    · rw [if_neg hpath]
      exact fun h => hpath (Worktree.mem_status.mpr (decide_eq_true (.inr h)))

/-- What the index has above a file is among the changes. -/
theorem index_above (hpaths : report.changes.map ChangedFile.path = w.status) :
    ∀ change ∈ report.changes, w.node change.path ≠ none →
      ∀ q, below change.path q = true → w.index.at q ≠ none →
        q ∈ report.changes.map ChangedFile.path := by
  intro change _ hlies q hbelow hat
  rw [hpaths, Worktree.mem_status]
  have hnothing : w.lies q = none := by
    unfold Worktree.lies
    cases hnode : w.node q with
    | none => rfl
    | some y =>
      obtain ⟨x, hx⟩ := Option.ne_none_iff_exists'.mp hlies
      rw [directory_above hx hnode hbelow]
      rfl
  refine decide_eq_true (.inr ⟨?_, fun h => hat h.1⟩)
  rw [hnothing]
  exact Ne.symm hat

/-- A worktree whose index has what lies at the changed paths differs where it did. -/
theorem differs_of_staged {tree : GitTree}
    (htree : ∀ path, tree.at path = if path ∈ w.status then w.lies path else w.index.at path)
    (hchanged : path ∈ w.status → w.lies path ≠ w.base.at path) :
    ({ w with index := tree } : Worktree).differs path = w.differs path := by
  by_cases hpath : path ∈ w.status
  · rw [Worktree.mem_status.mp hpath]
    refine decide_eq_true (.inl ?_)
    show tree.at path ≠ w.base.at path
    rw [htree path, if_pos hpath]
    exact hchanged hpath
  · have hat : tree.at path = w.index.at path := by
      rw [htree path, if_neg hpath]
    unfold Worktree.differs
    show decide (tree.at path ≠ w.base.at path ∨ w.lies path ≠ tree.at path ∧
      ¬ (tree.at path = none ∧ w.ignored path = true)) = _
    rw [hat]

theorem lies_eq_none (hchange : Observed w change) :
    w.lies change.path = none ↔ w.node change.path = none := by
  unfold Worktree.lies
  rcases hchange.plain with hnode | ⟨bytes, executable, hnode⟩
  · rw [hnode]
    exact iff_of_true rfl rfl
  · rw [hnode]
    exact iff_of_false (Option.some_ne_none _) (Option.some_ne_none _)

end Delivery

end GitDeliveryService

/-! ### A file that is edited, and one that is made executable -/

namespace Sample

/-- Another line. -/
def earlierLine : Bytes := [121, 10]

/-- What the libraries answer for the files of the deliveries. -/
def deliveryInspector : Inspector :=
  { inspector with
    sha256 := fun bytes =>
      if bytes = earlierLine then
        "3bb2abb69ebb27fbfe63c7639624c6ec5e331b841a5bc8c3ebc10b9285e90877"
      else
        "73cb3858a687a8494ca3323053016282f3dad39d42cf62ca4e79dda2aac7d9ac"
    digest := fun _ entries =>
      if entries = [("b.txt",
          some "73cb3858a687a8494ca3323053016282f3dad39d42cf62ca4e79dda2aac7d9ac")] then
        "e05495921fa4f5be7a218f546906911eb315856951ea6622a7d0c3042d8e8bc1"
      else
        "" }

/-- A tree with one file. -/
def treeOf (bytes : Bytes) : GitTree := Table.ofList [("b.txt", { mode := "100644", bytes })]

/-- A worktree whose commit has one file, where a line and the bit of it lie. -/
def worktree (committed : Bytes) (executable : Bool) : Worktree where
  root := "/work"
  head := "base"
  branch := some "main"
  commits _ := treeOf committed
  index := treeOf committed
  nodes := Table.ofList [("b.txt", .regular line executable)]
  ignored _ := false
  target _ := .ok ()
  nested := by
    cases executable with
    | false => decide +kernel
    | true => decide +kernel

/-- What the guardian finds in a worktree. -/
def deliveryInspection (w : Worktree) : GuardianService.Inspection :=
  inspect deliveryInspector primitives (w.checkout workspace) workspace {} ["greeting"] 50

/-- The report of a worktree. -/
def deliveryReport (w : Worktree) : ChangeReport where
  id := .uuid4 80
  createdAt := 9
  runId := .uuid4 1
  actorSessionId := .uuid4 2
  checkpoint := .final
  baseCommit := "base"
  treeHash := "e05495921fa4f5be7a218f546906911eb315856951ea6622a7d0c3042d8e8bc1"
  passed := true
  changes := (deliveryInspection w).changes
  findings := []

/-- The file is edited. -/
def edited : Worktree := worktree earlierLine false

/-- The file is made executable. -/
def madeExecutable : Worktree := worktree line true

theorem approves_edited : Approves (deliveryInspection edited) (deliveryReport edited) where
  passed := rfl
  clean := by decide +kernel
  treeHash := by decide +kernel
  changes := rfl

theorem approves_madeExecutable :
    Approves (deliveryInspection madeExecutable) (deliveryReport madeExecutable) where
  passed := rfl
  clean := by decide +kernel
  treeHash := by decide +kernel
  changes := rfl

theorem digest_unique (entries entries' : List (String × Option String))
    (h : deliveryInspector.digest "base" entries =
      "e05495921fa4f5be7a218f546906911eb315856951ea6622a7d0c3042d8e8bc1")
    (h' : deliveryInspector.digest "base" entries' =
      "e05495921fa4f5be7a218f546906911eb315856951ea6622a7d0c3042d8e8bc1") :
    entries = entries' := by
  have hone {l : List (String × Option String)} (hl : deliveryInspector.digest "base" l =
      "e05495921fa4f5be7a218f546906911eb315856951ea6622a7d0c3042d8e8bc1") :
      l = [("b.txt",
        some "73cb3858a687a8494ca3323053016282f3dad39d42cf62ca4e79dda2aac7d9ac")] := by
    by_contra hne
    have hl := (if_neg hne).symm.trans hl
    exact absurd hl (by decide)
  rw [hone h, hone h']

end Sample

/-! ### The delivery -/

section Delivery

open GitDeliveryService

end Delivery

end Orqalis
