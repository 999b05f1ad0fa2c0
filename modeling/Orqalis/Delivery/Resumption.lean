import Orqalis.Delivery.Commits

/-!
# A commit after stops

A call of a commit can stop while it stages, and after each of its steps, and other calls may be
under way meanwhile. What it leaves of the index are paths as they were and paths as they are
staged, which change neither the status nor the hash of the worktree; so the next call stages the
same tree, makes the same commit, and brings the delivery to its end. Only the last step leaves
something a later call may be refused by: the event of the commit is stored with its actor.
-/

namespace Orqalis

open Lib Lib.Outcome Lib.Transaction

namespace CommitService

open ChangeGuardian GitDeliveryService

/-! ## A worktree in the midst of staging -/

/-- What a path is staged as: a changed path as what lies there. -/
def content (w : Worktree) (path : String) : Option TreeEntry :=
  if path ∈ w.status then w.lies path else w.index.at path

/-- A worktree that a report tells of: its changes are what lies at the changed paths, it has the
hash of the report, and each of the paths can be delivered. -/
structure Accepted (I : Inspector) (workspace : RunWorkspace) (report : ChangeReport)
    (w : Worktree) : Prop where
  passed : report.passed = true
  paths : report.changes.map ChangedFile.path = w.status
  changes : ∀ change ∈ report.changes, Observed w change
  digest : workspaceDigest I workspace.baseCommit (w.checkout workspace) = .ok report.treeHash
  deliverable : ∀ path ∈ w.status, Deliverable w path

/-- A worktree at its base of which some paths are staged. -/
structure Between (w₀ w : Worktree) : Prop where
  root : w.root = w₀.root
  head : w.head = w₀.head
  branch : w.branch = w₀.branch
  nodes : w.nodes = w₀.nodes
  ignored : w.ignored = w₀.ignored
  target : w.target = w₀.target
  base : w.base = w₀.base
  index : ∀ path, w.index.at path = w₀.index.at path ∨ w.index.at path = content w₀ path

/-- A worktree at the commit of what was staged. -/
structure Landed (w₀ : Worktree) (sha : String) (w : Worktree) : Prop where
  head : w.head = sha
  branch : w.branch = w₀.branch
  nodes : w.nodes = w₀.nodes
  ignored : w.ignored = w₀.ignored
  index : w.index.at = content w₀
  base : w.base.at = content w₀

section Worktrees

variable {I : Inspector} {workspace : RunWorkspace} {report : ChangeReport} {w₀ w w' : Worktree}
  {path : String}

/-- What a clean inspection approves of is accepted, if each of its paths can be delivered. -/
theorem accepted_of_approves {P : Primitives} {c : Checkout} {policy : DeliveryPolicy}
    {goalScope : List String} {n : Nat}
    (happroves : Approves (inspect I P c workspace policy goalScope n) report)
    (hdigest : workspaceDigest I workspace.baseCommit (w.checkout workspace) = .ok report.treeHash)
    (hcollision : ∀ entries entries', I.digest workspace.baseCommit entries = report.treeHash →
      I.digest workspace.baseCommit entries' = report.treeHash → entries = entries')
    (hdeliverable : ∀ path ∈ w.status, Deliverable w path) : Accepted I workspace report w := by
  obtain ⟨hpaths, hchanges⟩ := observed happroves hdigest hcollision
  exact ⟨happroves.passed, hpaths, hchanges, hdigest, hdeliverable⟩

/-- An accepted worktree is the workspace of its run. -/
theorem Accepted.verified (h : Accepted I workspace report w) : w.head = workspace.baseCommit ∧
    w.branch = some workspace.branch := by
  obtain ⟨hverified, -⟩ := workspaceDigest_ok.mp h.digest
  obtain ⟨hplace, hverified⟩ := ite_error_eq_ok.mp hverified
  obtain ⟨hhead, -⟩ := ite_error_eq_ok.mp hverified
  exact ⟨not_not.mp hhead, by_contra fun h => hplace (.inr h)⟩

theorem Between.refl (w : Worktree) : Between w w :=
  ⟨rfl, rfl, rfl, rfl, rfl, rfl, rfl, fun _ => .inl rfl⟩

theorem Between.node (h : Between w₀ w) : w.node = w₀.node := by
  unfold Worktree.node
  rw [h.nodes]

theorem Between.lies (h : Between w₀ w) : w.lies = w₀.lies := by
  unfold Worktree.lies
  rw [h.node]

/-- Staging a part of the paths changes none of their states. -/
theorem Between.status (h : Between w₀ w) (haccepted : Accepted I workspace report w₀) :
    w.status = w₀.status := by
  refine Worktree.status_congr fun path => ?_
  by_cases hpath : path ∈ w₀.status
  · rw [Worktree.mem_status.mp hpath]
    rcases h.index path with hsame | hstaged
    · have hdiffers := Worktree.mem_status.mp hpath
      unfold Worktree.differs at hdiffers ⊢
      rw [hsame, h.base, h.lies, h.ignored]
      exact hdiffers
    · refine decide_eq_true (.inl ?_)
      rw [hstaged, h.base, content, if_pos hpath]
      exact (haccepted.deliverable path hpath).changed
  · have hsame : w.index.at path = w₀.index.at path := by
      rcases h.index path with hsame | hstaged
      · exact hsame
      · rw [hstaged, content, if_neg hpath]
    unfold Worktree.differs
    rw [hsame, h.base, h.lies, h.ignored]

/-- What the guardian sees of a worktree stays while it is staged. -/
theorem Between.checkout (h : Between w₀ w) (haccepted : Accepted I workspace report w₀) :
    w.checkout workspace = w₀.checkout workspace := by
  have hbase : w.commits workspace.baseCommit = w₀.commits workspace.baseCommit := by
    rw [← haccepted.verified.1]
    exact (congrArg w.commits h.head.symm).trans h.base
  unfold Worktree.checkout verifyWorkspace
  rw [hbase, h.node, h.target, h.status haccepted, h.root, h.branch, h.head]

theorem Between.observed (h : Between w₀ w) {change : ChangedFile}
    (hchange : Observed w₀ change) : Observed w change :=
  ⟨by rw [h.target]; exact hchange.target, by rw [h.node]; exact hchange.deleted,
    by rw [h.node]; exact hchange.plain⟩

theorem Between.stagedEntry (h : Between w₀ w) (base : GitTree) (path : String) :
    stagedEntry w base path = stagedEntry w₀ base path := by
  unfold GitDeliveryService.stagedEntry
  rw [h.node]

/-- A changed path is staged as what lies there. -/
theorem Accepted.staged (h : Accepted I workspace report w₀) {change : ChangedFile}
    (hchange : change ∈ report.changes) : Stageable w₀ w₀.base w₀.index change.path ∧
      stagedEntry w₀ w₀.base change.path = content w₀ change.path := by
  have hpath : change.path ∈ w₀.status := h.paths ▸ List.mem_map_of_mem hchange
  obtain ⟨-, hstageable, hstaged⟩ :=
    (deliverable_iff (h.changes change hchange)).mp (h.deliverable _ hpath)
  rw [content, if_pos hpath]
  exact ⟨hstageable, hstaged⟩

/-- What can be staged can be staged in the midst of staging. -/
theorem Between.stageable (h : Between w₀ w) (haccepted : Accepted I workspace report w₀)
    {change : ChangedFile} (hchange : change ∈ report.changes) :
    Stageable w w.base w.index change.path := by
  have hpath : change.path ∈ w₀.status := haccepted.paths ▸ List.mem_map_of_mem hchange
  intro hnode
  rw [h.node] at hnode
  obtain ⟨hmode, hclear⟩ := (haccepted.staged hchange).1 hnode
  have hlies : w₀.lies change.path ≠ none :=
    mt (lies_eq_none (haccepted.changes change hchange)).mp hnode
  refine ⟨fun mode hlisted => hmode mode (h.base ▸ hlisted), fun hnone q hbelow => ?_⟩
  have hbefore : w₀.index.at change.path = none := by
    rcases h.index change.path with hsame | hstaged
    · exact hsame.symm.trans hnone
    · rw [hnone, content, if_pos hpath] at hstaged
      exact absurd hstaged.symm hlies
  have hq : w₀.index.at q = none := hclear hbefore q hbelow
  rcases h.index q with hsame | hstaged
  · exact hsame.trans hq
  · rw [hstaged]
    unfold content
    split_ifs
    · by_contra hsome
      obtain ⟨e, he⟩ := Option.ne_none_iff_exists'.mp hsome
      obtain ⟨x, hx, -⟩ := Option.bind_eq_some_iff.mp he
      obtain ⟨y, hy⟩ := Option.ne_none_iff_exists'.mp hnode
      obtain rfl := directory_above hx hy hbelow
      rcases (haccepted.changes change hchange).plain with hnone | ⟨bytes, executable, hfile⟩
      · exact hnode hnone
      · rw [hy] at hfile
        cases hfile
    · exact hq

/-- A worktree stays in the midst of staging as long as its paths are as they were or staged. -/
theorem Between.indexed (h : Between w₀ w) {index : GitTree}
    (hindex : ∀ path, index.at path = w₀.index.at path ∨ index.at path = content w₀ path) :
    Between w₀ { w with index } :=
  ⟨h.root, h.head, h.branch, h.nodes, h.ignored, h.target, h.base, hindex⟩

/-- A change that is staged sets its path. -/
theorem stageChange_sets {base index index' : GitTree} {change : ChangedFile}
    (hchange : Observed w change) (h : stageChange w base index change = .ok index') :
    index' = index.set change.path (GitDeliveryService.stagedEntry w base change.path) := by
  unfold GitDeliveryService.stageChange at h
  unfold GitDeliveryService.stagedEntry
  rcases hchange.plain with hnode | ⟨bytes, executable, hnode⟩
  · rw [if_pos (hchange.deleted.mpr hnode)] at h
    cases h
    rw [hnode]
    rfl
  · have hlies : w.node change.path ≠ none := by
      rw [hnode]
      exact Option.some_ne_none _
    rw [if_neg (mt hchange.deleted.mp hlies), hchange.target, ok_bind, hnode] at h
    obtain ⟨-, h⟩ := ite_error_eq_ok.mp h
    rw [hnode]
    exact (cacheInfo_ok.mp h).2

/-- Where a part of the changes is staged, each path is as it was or staged. -/
theorem Between.partly (h : Between w₀ w) (haccepted : Accepted I workspace report w₀)
    {changes : List ChangedFile} (hsub : changes ⊆ report.changes) {index index' : GitTree}
    (hstaged : changes.foldlM (stageChange w w.base) index = .ok index') (path : String) :
    index'.at path = index.at path ∨ index'.at path = content w₀ path := by
  induction changes generalizing index with
  | nil =>
    cases hstaged
    exact .inl rfl
  | cons change changes ih =>
    rw [List.foldlM_cons] at hstaged
    obtain ⟨next, hnext, hstaged⟩ := bind_eq_ok.mp hstaged
    have hmem := hsub List.mem_cons_self
    rcases ih (fun c hc => hsub (List.mem_cons_of_mem _ hc)) hstaged with hrest | hrest
    · rw [hrest, stageChange_sets (h.observed (haccepted.changes change hmem)) hnext,
        GitTree.at_set]
      split_ifs with hpath
      · rw [h.stagedEntry, h.base, (haccepted.staged hmem).2, hpath]
        exact .inr rfl
      · exact .inl rfl
    · exact .inr hrest

/-- Staging again stages the same. -/
theorem Between.stages (h : Between w₀ w) (haccepted : Accepted I workspace report w₀) :
    ∃ tree, GitDeliveryService.stage I w workspace report (.ok ()) =
        .ok (tree, { w with index := tree }) ∧ tree.at = content w₀ := by
  have hpaths : report.changes.map ChangedFile.path = w.status :=
    haccepted.paths.trans (h.status haccepted).symm
  have hsorted : (report.changes.map ChangedFile.path).Pairwise (· < ·) :=
    hpaths ▸ Worktree.status_pairwise
  have hfold := (foldlM_stageChange w.base w.index _
    (fun change hchange => h.observed (haccepted.changes change hchange)) hsorted
    (index_above hpaths)).mpr
      ⟨fun change hchange => h.stageable haccepted hchange, rfl⟩
  have hcontent (path : String) : (report.changes.foldl (fun index change =>
      index.set change.path (GitDeliveryService.stagedEntry w w.base change.path)) w.index).at
        path = content w₀ path := by
    rw [at_foldl_set (GitDeliveryService.stagedEntry w w.base)]
    split_ifs with hpath
    · obtain ⟨change, hchange, rfl⟩ := List.mem_map.mp hpath
      rw [h.stagedEntry, h.base]
      exact (haccepted.staged hchange).2
    · rw [haccepted.paths] at hpath
      rcases h.index path with hsame | hstaged
      · rw [hsame, content, if_neg hpath]
      · exact hstaged
  refine ⟨_, stage_of_ok haccepted.passed hpaths ?_ ?_ hfold ?_, funext hcontent⟩
  · rw [h.checkout haccepted]
    exact haccepted.digest
  · rw [h.head]
    exact haccepted.verified.1
  · rw [(h.indexed fun path => .inr (hcontent path)).status haccepted, h.status haccepted]

/-- A worktree at the commit of what was staged is clean. -/
theorem Landed.clean {sha : String} (h : Landed w₀ sha w) : w.status = [] := by
  rw [Worktree.status_eq_nil]
  intro path
  unfold Worktree.differs
  rw [decide_eq_false_iff_not, not_or, h.index, h.base]
  refine ⟨not_not.mpr rfl, ?_⟩
  have hlies : w.lies = w₀.lies := by
    unfold Worktree.lies Worktree.node
    rw [h.nodes]
  rw [hlies, h.ignored]
  unfold content
  split_ifs with hpath
  · exact fun hnot => hnot.1 rfl
  · exact fun hnot => hpath (Worktree.mem_status.mpr (decide_eq_true (.inr hnot)))

theorem validated_of_stage {validated : Except Error Unit} {tree : GitTree}
    (h : GitDeliveryService.stage I w workspace report validated = .ok (tree, w')) :
    validated = .ok () := by
  obtain ⟨⟨⟩, hvalidated, -⟩ := bind_eq_ok.mp h
  exact hvalidated

/-- Whatever stages a worktree in the midst of staging stages what the first did. -/
theorem Between.staged (h : Between w₀ w) (haccepted : Accepted I workspace report w₀)
    {validated : Except Error Unit} {tree : GitTree}
    (hstage : GitDeliveryService.stage I w workspace report validated = .ok (tree, w')) :
    w' = { w with index := tree } ∧ tree.at = content w₀ := by
  obtain rfl := validated_of_stage hstage
  obtain ⟨tree', hstaged, hcontent⟩ := h.stages haccepted
  obtain ⟨rfl, rfl⟩ := Prod.mk.inj (Except.ok.inj (hstage.symm.trans hstaged))
  exact ⟨rfl, hcontent⟩

/-- A worktree whose paths are all staged lands at the commit of them. -/
theorem Between.lands (h : Between w₀ w) {sha : String} (hindex : w.index.at = content w₀)
    (hcommit : (w.commits sha).at = content w₀) : Landed w₀ sha { w with head := sha } :=
  ⟨rfl, h.branch, h.nodes, h.ignored, hindex, hcommit⟩

/-- A commit that is made leaves a worktree in the midst of staging. -/
theorem Between.committed (h : Between w₀ w) {sha : String} (hsha : sha ≠ w₀.head)
    (tree : GitTree) : Between w₀ (createCommit w tree sha) := by
  refine ⟨h.root, h.head, h.branch, h.nodes, h.ignored, h.target, ?_, h.index⟩
  show Function.update w.commits sha tree w.head = w₀.base
  rw [Function.update_of_ne (h.head ▸ hsha.symm)]
  exact h.base

end Worktrees

/-! ## What a call rests on -/

/-- Records whose last final inspection is that of a report. -/
def Reported (r : Records) (report : ChangeReport) : Prop :=
  ∃ reports, r.guardians = .ok reports ∧ lastReport .final reports = some report

/-- A call that stops while it stages has staged some of the changes. -/
def Stages (workspace : RunWorkspace) (report : ChangeReport) (w w' : Worktree) : Prop :=
  w.head = workspace.baseCommit ∧ ∃ changes index, changes <+: report.changes ∧
    changes.foldlM (stageChange w w.base) w.index = .ok index ∧ w' = { w with index }

/-- What holds of the names of commits: no redactor takes one for a secret, and no commit has the
name of its parent. -/
structure Naming.Proper (P : Primitives) (G : Naming) : Prop where
  safe : ∀ object, P.safe (G.commit object) = true
  parent : ∀ object, G.commit object ≠ object.parent

/-- The event of a commit, but for its actor and its phase. -/
structure Answers (e : Event) (sha : String) : Prop where
  eventType : e.eventType = .commitCreated
  payload : e.payload = { summary := some sha }
  taskId : e.taskId = none
  taskExecutionId : e.taskExecutionId = none

/-- The aim of a delivery whose tree is that of an accepted worktree. -/
structure Aim.Of (I : Inspector) (G : Naming) (workspace : RunWorkspace) (w₀ : Worktree)
    (aim : Aim) : Prop where
  sound : aim.Sound I G
  workspace : aim.workspace = workspace
  tree : aim.intended.gitTreeSha = G.tree (content w₀)
  message : isBlank aim.intended.commitMessage = false

/-- What a call has done at its point. -/
def Done (w₀ : Worktree) (sha : String) (w : Worktree) (call : Call) : Prop :=
  match call.point with
  | .intended => True
  | .certified => w.index.at = content w₀ ∧
      (call.delivery.commitSha = none → ∃ tree, call.staged = some tree ∧ tree.at = content w₀)
  | .created => w.index.at = content w₀ ∧
      (call.made ≠ none → (w.commits sha).at = content w₀) ∧
      (call.delivery.commitSha = none → call.made ≠ none)
  | .recorded => w.index.at = content w₀ ∧ call.delivery.commitSha ≠ none
  | .moved | .checked | .sent => call.delivery.commitSha ≠ none

/-- Records that name a commit. -/
def Told (r : Records) : Prop :=
  ∃ delivery, r.delivery = .ok (some delivery) ∧ delivery.commitSha ≠ none

/-- A call which knows of no commit but the stored one, of what was staged, and has done what leads
to its point. -/
structure Backed (w₀ : Worktree) (sha : String) (site : Site) (call : Call) : Prop where
  known : call.delivery.commitSha ≠ none →
    Told site.records ∧ (site.worktree.commits sha).at = content w₀
  done : Done w₀ sha site.worktree call

/-- What stays of a site: a staged index, a commit of what was staged, and its name. -/
structure Stays (w₀ : Worktree) (sha : String) (site site' : Site) : Prop where
  index : site.worktree.index.at = content w₀ → site'.worktree.index.at = content w₀
  commit : (site.worktree.commits sha).at = content w₀ →
    (site'.worktree.commits sha).at = content w₀
  told : Told site.records → Told site'.records

/-- A delivery with a stored intent, of which whatever was done was done with the accepted tree. -/
structure Kept (w₀ : Worktree) (s : Delivering) (aim : Aim) : Prop where
  settled : Settled s aim
  identified : aim.intended.id = deliveryId s.site.records.run.id
  place : Between w₀ s.site.worktree ∨
    Landed w₀ aim.sha s.site.worktree ∧ Told s.site.records
  known : Told s.site.records → (s.site.worktree.commits aim.sha).at = content w₀
  calls : ∀ call ∈ s.calls, Backed w₀ aim.sha s.site call
  answered : ∀ e, s.site.records.byKey (commitKey s.site.records.run.id) = some e →
    Answers e aim.sha

/-- A delivery of which nothing is stored and nothing was done but to stage. -/
structure Fresh (workspace : RunWorkspace) (w₀ : Worktree) (s : Delivering) : Prop where
  pristine : Pristine s
  workspace : s.site.records.workspace = .ok (some workspace)
  key : s.site.records.byKey (commitKey s.site.records.run.id) = none
  between : Between w₀ s.site.worktree

/-! ## Records -/

section Stored

variable {P : Primitives} {r r' : Records} {delivery : GitDelivery} {draft : EventDraft} {run : Run}
  {key sha : String} {x : Unit}

theorem byKey_of_save (h : r.saveDelivery delivery = .ok r') : r'.byKey key = r.byKey key := by
  obtain ⟨d, -, h⟩ := Outcome.bind_eq_ok.mp h
  obtain ⟨existing, -, h⟩ := Outcome.bind_eq_ok.mp h
  obtain ⟨-, h⟩ := ite_error_eq_ok.mp h
  cases h
  rfl

theorem guardians_of_save (h : r.saveDelivery delivery = .ok r') :
    r'.guardians = r.guardians := by
  obtain ⟨d, hd, h⟩ := Outcome.bind_eq_ok.mp h
  obtain ⟨existing, -, h⟩ := Outcome.bind_eq_ok.mp h
  obtain ⟨-, h⟩ := ite_error_eq_ok.mp h
  cases h
  unfold Records.guardians Records.storedGuardians
  rw [hd]
  rfl

/-- A copy of the stored delivery can be stored. -/
theorem save_of_stored {stored : GitDelivery} (hstored : r.delivery = .ok (some stored))
    (hid : stored.id = delivery.id) : ∃ r', r.saveDelivery delivery = .ok r' := by
  obtain ⟨d, hd, -⟩ := Outcome.bind_eq_ok.mp hstored
  unfold Records.saveDelivery
  rw [hd, hstored, Outcome.ok_bind, Outcome.ok_bind, if_neg]
  · exact ⟨_, rfl⟩
  · rw [Option.any_some, decide_eq_true_eq, not_not]
    exact hid

/-- What a note leaves under a key: the event that is stored there, or its own. -/
theorem byKey_after_note (h : note P run draft r = .ok (x, r')) (hkey : r.byKey key = none)
    {e : Event} (he : r'.byKey key = some e) :
    key = draft.idempotencyKey ∧ e = r.eventOf { draft with phase := some run.uiPhase } := by
  obtain ⟨e', h⟩ := note_ok.mp h
  unfold Records.append at h
  split at h
  · obtain ⟨-, h⟩ := ite_ok_eq_ok.mp h
    cases h
    rw [hkey] at he
    cases he
  · obtain ⟨-, h⟩ := ite_ok_eq_ok.mp h
    cases h
    unfold Records.byKey at hkey he
    rw [List.find?_append, hkey, Option.none_or] at he
    have hsame := List.find?_some he
    rw [decide_eq_true_eq] at hsame
    obtain rfl := List.mem_singleton.mp (List.mem_of_find?_eq_some he)
    exact ⟨hsame.symm, rfl⟩

/-- A note can be made where its key is free and its texts are safe, or where the event under its
key is its own. -/
theorem note_of_key (hfree : r.byKey draft.idempotencyKey = none → draft.payload.texts.all P.safe)
    (hused : ∀ e, r.byKey draft.idempotencyKey = some e →
      e.matches { draft with phase := some run.uiPhase } = true) :
    ∃ r', note P run draft r = .ok ((), r') := by
  have happend : ∃ e r', r.append P.safe { draft with phase := some run.uiPhase } =
      .ok (e, r') := by
    unfold Records.append
    split
    · next e he => exact ⟨e, r, if_pos (hused e he)⟩
    · next hnone => exact ⟨_, _, if_pos (hfree hnone)⟩
  obtain ⟨e, r', happend⟩ := happend
  exact ⟨r', note_ok.mpr ⟨e, happend⟩⟩

end Stored

/-! ## What the steps keep -/

section Kept

variable {P : Primitives} {I : Inspector} {G : Naming} {project : Project}
  {workspace : RunWorkspace} {report : ChangeReport} {w₀ w w' : Worktree} {sha : String}
  {s s' : Delivering} {aim : Aim} {call call' : Call} {site site' : Site}
  {before after : List Call}

theorem Backed.mono (h : Backed w₀ sha site call) (hstays : Stays w₀ sha site site') :
    Backed w₀ sha site' call := by
  refine ⟨fun hmade => (h.known hmade).imp hstays.told hstays.commit, ?_⟩
  have hdone := h.done
  unfold Done at hdone ⊢
  cases hpoint : call.point with
  | intended => exact trivial
  | certified =>
    rw [hpoint] at hdone
    exact ⟨hstays.index hdone.1, hdone.2⟩
  | created =>
    rw [hpoint] at hdone
    exact ⟨hstays.index hdone.1, fun hmade => hstays.commit (hdone.2.1 hmade), hdone.2.2⟩
  | recorded =>
    rw [hpoint] at hdone
    exact ⟨hstays.index hdone.1, hdone.2⟩
  | moved | checked | sent =>
    rw [hpoint] at hdone
    exact hdone

theorem Backed.at_point (h : Backed w₀ sha site call) {point : Point}
    (hpoint : call.point = point) : Done w₀ sha site.worktree { call with point } := by
  have hsame : { call with point } = call := by rw [← hpoint]
  rw [hsame]
  exact h.done

theorem Stays.refl (w₀ : Worktree) (sha : String) (site : Site) : Stays w₀ sha site site :=
  ⟨id, id, id⟩

/-- The other calls, and what has become of one. -/
theorem Kept.replaces (h : Kept w₀ s aim) (hcalls : s.calls = before ++ call :: after)
    (hstays : Stays w₀ aim.sha s.site site) (hcall' : Backed w₀ aim.sha site call') :
    ∀ x ∈ before ++ call' :: after, Backed w₀ aim.sha site x := by
  intro x hx
  rcases List.mem_append.mp hx with hx | hx
  · exact (h.calls x (hcalls ▸ List.mem_append_left _ hx)).mono hstays
  · rcases List.mem_cons.mp hx with rfl | hx
    · exact hcall'
    · exact (h.calls x (hcalls ▸ List.mem_append_right _ (List.mem_cons_of_mem _ hx))).mono hstays

theorem Kept.drops (h : Kept w₀ s aim) (hcalls : s.calls = before ++ call :: after) :
    ∀ x ∈ before ++ after, Backed w₀ aim.sha s.site x := by
  intro x hx
  refine h.calls x (hcalls ▸ ?_)
  rcases List.mem_append.mp hx with hx | hx
  · exact List.mem_append_left _ hx
  · exact List.mem_append_right _ (List.mem_cons_of_mem _ hx)

theorem Kept.leads (h : Kept w₀ s aim) (hcalls : s.calls = before ++ call :: after) :
    aim.Leads s.landed call ∧ Backed w₀ aim.sha s.site call := by
  obtain ⟨hmem, hleads⟩ := h.settled.call hcalls
  exact ⟨hleads, h.calls call hmem⟩

/-- No commit has the name of the base. -/
theorem Aim.Of.sha_ne (haim : aim.Of I G workspace w₀) (hG : Naming.Proper P G)
    (haccepted : Accepted I workspace report w₀) : aim.sha ≠ w₀.head := by
  obtain ⟨name, email, -, -, -, -, hsha⟩ := haim.sound.named
  rw [hsha, haccepted.verified.1, ← haim.workspace]
  exact hG.parent _

/-- Where only the worktree and the calls change, a kept delivery stays kept. -/
theorem Kept.keeps (h : Kept w₀ s aim) (hsettled : Settled s' aim)
    (hrecords : s'.site.records = s.site.records) (hstays : Stays w₀ aim.sha s.site s'.site)
    (hplace : Between w₀ s'.site.worktree ∨
      Landed w₀ aim.sha s'.site.worktree ∧ Told s.site.records)
    (hcalls : ∀ x ∈ s'.calls, Backed w₀ aim.sha s'.site x) : Kept w₀ s' aim where
  settled := hsettled
  identified := by rw [hrecords]; exact h.identified
  place := by rw [hrecords]; exact hplace
  known htold := hstays.commit (h.known (hrecords ▸ htold))
  calls := hcalls
  answered := by rw [hrecords]; exact h.answered

/-- Where the records change, a kept delivery stays kept if the name of its commit stays, and its
event answers. -/
theorem Kept.stores (h : Kept w₀ s aim) (hsettled : Settled s' aim)
    (hworktree : s'.site.worktree = s.site.worktree)
    (hid : s'.site.records.run.id = s.site.records.run.id)
    (hknown : Told s'.site.records → (s.site.worktree.commits aim.sha).at = content w₀)
    (htold : Told s.site.records → Told s'.site.records)
    (hgrown : s.site.records.events <+: s'.site.records.events)
    (hkey : s.site.records.byKey (commitKey s.site.records.run.id) = none → ∀ e,
      s'.site.records.byKey (commitKey s.site.records.run.id) = some e → Answers e aim.sha)
    (hcalls : ∀ x ∈ s'.calls, Backed w₀ aim.sha s'.site x) : Kept w₀ s' aim where
  settled := hsettled
  identified := by rw [hid]; exact h.identified
  place := by
    rw [hworktree]
    exact h.place.imp_right fun hlanded => ⟨hlanded.1, htold hlanded.2⟩
  known := by rw [hworktree]; exact hknown
  calls := hcalls
  answered e he := by
    rw [hid] at he
    cases hbefore : s.site.records.byKey (commitKey s.site.records.run.id) with
    | none => exact hkey hbefore e he
    | some e' =>
      obtain rfl : e' = e := Option.some.inj ((byKey_of_grown hgrown hbefore).symm.trans he)
      exact h.answered e' hbefore

/-- A worktree of which more is staged stays where it is. -/
theorem Stages.between (hstages : Stages workspace report w w') (hbetween : Between w₀ w)
    (haccepted : Accepted I workspace report w₀) : Between w₀ w' := by
  obtain ⟨-, changes, index, hchanges, hstaged, rfl⟩ := hstages
  refine hbetween.indexed fun path => ?_
  rcases hbetween.partly haccepted hchanges.subset hstaged path with hsame | hstaged
  · rw [hsame]
    exact hbetween.index path
  · exact .inr hstaged

theorem Stages.stays (hstages : Stages workspace report w w') (hbetween : Between w₀ w)
    (haccepted : Accepted I workspace report w₀) {records : Records} :
    Stays w₀ sha { records, worktree := w } { records, worktree := w' } := by
  obtain ⟨-, changes, index, hchanges, hstaged, rfl⟩ := hstages
  refine ⟨fun hfull => funext fun path => ?_, id, id⟩
  rcases hbetween.partly haccepted hchanges.subset hstaged path with hsame | hstaged
  · rw [hsame]
    exact congrFun hfull path
  · exact hstaged

/-- What a step leaves that stores a copy with a commit. -/
theorem told_of_stores {r r' : Records} {delivery : GitDelivery} (hstores : Stores r r' delivery)
    (hmade : delivery.commitSha ≠ none) : Told r' :=
  ⟨delivery, hstores.delivery, hmade⟩

/-- A kept worktree is at its base or at the commit. -/
theorem Kept.between (h : Kept w₀ s aim) (haim : aim.Of I G workspace w₀)
    (hG : Naming.Proper P G) (haccepted : Accepted I workspace report w₀)
    (hhead : s.site.worktree.head = workspace.baseCommit) : Between w₀ s.site.worktree := by
  rcases h.place with hbetween | ⟨hlanded, -⟩
  · exact hbetween
  · exact absurd (hlanded.head.symm.trans (hhead.trans haccepted.verified.1.symm))
      (haim.sha_ne hG haccepted)

theorem Kept.landed (h : Kept w₀ s aim) (haim : aim.Of I G workspace w₀)
    (hG : Naming.Proper P G) (haccepted : Accepted I workspace report w₀)
    (hhead : s.site.worktree.head = aim.sha) : Landed w₀ aim.sha s.site.worktree := by
  rcases h.place with hbetween | ⟨hlanded, -⟩
  · exact absurd (hhead.symm.trans hbetween.head) (haim.sha_ne hG haccepted)
  · exact hlanded

/-! ### The steps -/

theorem Kept.aside (h : Kept w₀ s aim) {cmd : Command} {records : Records}
    (hcmd : besides cmd = true)
    (hkeys : ∀ key ∈ ownKeys s.site.records.run.id,
      s.site.records.byKey key = none → records.byKey key = none)
    (hleads : cmd.Leads P project s.site.records records) :
    Kept w₀ { s with site := { s.site with records } } aim := by
  have hdelivery : records.delivery = s.site.records.delivery := aside_delivery hcmd hleads
  have htold : Told records ↔ Told s.site.records := by
    unfold Told
    rw [hdelivery]
  refine h.stores (h.settled.aside hcmd hleads) rfl hleads.frame.id (h.known ∘ htold.mp)
    htold.mpr hleads.frame.grown (fun hfree e he => ?_)
    fun x hx => (h.calls x hx).mono ⟨id, id, htold.mpr⟩
  rw [hkeys _ (List.mem_cons_of_mem _ List.mem_cons_self) hfree] at he
  cases he

theorem Kept.touched (h : Kept w₀ s aim) (haim : aim.Of I G workspace w₀)
    (hG : Naming.Proper P G) (haccepted : Accepted I workspace report w₀)
    (htouched : Stages workspace report s.site.worktree w) :
    Kept w₀ { s with site := { s.site with worktree := w } } aim := by
  have hbetween := h.between haim hG haccepted htouched.1
  have hstays : Stays w₀ aim.sha s.site { s.site with worktree := w } :=
    htouched.stays hbetween haccepted
  exact h.keeps (h.settled.keeps h.settled.calls) rfl hstays
    (.inl (htouched.between hbetween haccepted)) fun x hx => (h.calls x hx).mono hstays

theorem Kept.stopped (h : Kept w₀ s aim) (hcalls : s.calls = before ++ call :: after) :
    Kept w₀ { s with calls := before ++ after } aim :=
  h.keeps (h.settled.keeps_site (h.settled.drops hcalls)) rfl (Stays.refl _ _ _) h.place
    (h.drops hcalls)

/-- A later call of a delivery leaves its records and its worktree. -/
theorem intend_again {c : Caller} {stored : GitDelivery}
    (hstored : s.site.records.delivery = .ok (some stored))
    (hkey : (s.site.records.byKey "git:identity").isSome)
    (h : intend P I G project c s.site = .ok (call, site)) :
    site = s.site ∧ call.delivery = stored ∧ call.point = .intended := by
  obtain ⟨delivery, records, _, hbegin, -, rfl, rfl⟩ := intend_ok h
  obtain ⟨rfl, rfl⟩ := begin_again hstored hkey hbegin
  refine ⟨?_, rfl, rfl⟩
  unfold stagedWorktree
  rw [hstored]

theorem Kept.intends (h : Kept w₀ s aim) {c : Caller}
    (hintend : intend P I G project c s.site = .ok (call, site)) :
    Kept w₀ { s with site, calls := call :: s.calls } aim := by
  obtain ⟨stored, hstored, -⟩ := h.settled.stored
  have hkey : (s.site.records.byKey "git:identity").isSome := by
    rw [h.settled.identity]
    rfl
  have hsettled := h.settled.intends hintend
  obtain ⟨rfl, hdelivery, hpoint⟩ := intend_again hstored hkey hintend
  refine h.keeps hsettled rfl (Stays.refl _ _ _) h.place fun x hx => ?_
  rcases List.mem_cons.mp hx with rfl | hx
  · refine ⟨fun hmade => ?_, ?_⟩
    · have htold : Told s.site.records := ⟨stored, hstored, hdelivery ▸ hmade⟩
      exact ⟨htold, h.known htold⟩
    unfold Done
    rw [hpoint]
    exact trivial
  · exact h.calls x hx

/-- The last final inspection is what is staged. -/
theorem stageFinal_of_reported {validated : Except Error Unit}
    (hreported : Reported site.records report) : stageFinal I validated workspace site =
      GitDeliveryService.stage I site.worktree workspace report validated := by
  obtain ⟨reports, hreports, hlast⟩ := hreported
  unfold stageFinal
  rw [hreports, ok_bind, hlast]

theorem Kept.certifies (h : Kept w₀ s aim) (haim : aim.Of I G workspace w₀)
    (hG : Naming.Proper P G) (haccepted : Accepted I workspace report w₀)
    (hreported : Reported s.site.records report) (hcalls : s.calls = before ++ call :: after)
    (hcertify : certify I G call s.site = .ok (call', site)) :
    Kept w₀ { s with site, calls := before ++ call' :: after } aim := by
  have hsettled := h.settled.certifies hcalls hcertify
  obtain ⟨hleads, hbacked⟩ := h.leads hcalls
  have hworkspace : call.workspace = workspace := hleads.workspace.trans haim.workspace
  obtain ⟨staged, worktree, rfl, rfl, ⟨hhead, tree, rfl, hstage⟩ | ⟨hhead, rfl⟩⟩ :=
    certify_ok hcertify
  · rw [hworkspace] at hhead hstage
    have hbetween := h.between haim hG haccepted hhead
    rw [stageFinal_of_reported hreported] at hstage
    obtain ⟨rfl, htree⟩ := hbetween.staged haccepted hstage
    have hstays : Stays w₀ aim.sha s.site
        { s.site with worktree := { s.site.worktree with index := tree } } :=
      ⟨fun _ => htree, id, id⟩
    refine h.keeps hsettled rfl hstays (.inl (hbetween.indexed fun path => .inr ?_))
      (h.replaces hcalls hstays ⟨hbacked.known, htree, fun _ => ⟨tree, rfl, htree⟩⟩)
    rw [htree]
  · have hlanded := h.landed haim hG haccepted (hleads.holds.sha _ hhead.symm)
    have hmade : call.delivery.commitSha ≠ none := by
      rw [← hhead]
      exact Option.some_ne_none _
    exact h.keeps hsettled rfl (Stays.refl _ _ _) h.place
      (h.replaces hcalls (Stays.refl _ _ _)
        ⟨hbacked.known, hlanded.index, fun hnone => absurd hnone hmade⟩)

/-- A commit that is made again changes nothing. -/
theorem Landed.committed (h : Landed w₀ sha w) {tree : GitTree} (htree : tree.at = content w₀) :
    Landed w₀ sha (createCommit w tree sha) := by
  refine ⟨h.head, h.branch, h.nodes, h.ignored, h.index, ?_⟩
  show (Function.update w.commits sha tree w.head).at = content w₀
  rw [h.head, Function.update_self]
  exact htree

theorem Kept.creates (h : Kept w₀ s aim) (haim : aim.Of I G workspace w₀)
    (hG : Naming.Proper P G) (haccepted : Accepted I workspace report w₀)
    (hcalls : s.calls = before ++ call :: after) (hpoint : call.point = .certified)
    (hcreate : create P G call s.site = .ok (call', site)) :
    Kept w₀ { s with site, calls := before ++ call' :: after } aim := by
  have hsettled := h.settled.creates haim.sound hcalls hcreate
  obtain ⟨hleads, hbacked⟩ := h.leads hcalls
  obtain ⟨hindex, hstaged⟩ : Done _ _ _ { call with point := .certified } :=
    hbacked.at_point hpoint
  obtain ⟨hmade, rfl, rfl⟩ | ⟨hnone, identity, sha, worktree, hidentity, hsha, rfl, rfl,
    hworktree⟩ := create_ok hcreate
  · exact h.keeps hsettled rfl (Stays.refl _ _ _) h.place (h.replaces hcalls (Stays.refl _ _ _)
      ⟨hbacked.known, hindex, fun _ => (hbacked.known hmade).2, fun hnone => absurd hnone hmade⟩)
  · obtain ⟨tree, htree, hcontent⟩ := hstaged hnone
    obtain rfl : sha = aim.sha := by
      rw [hsha, hleads.identity identity hidentity, hleads.workspace]
      exact haim.sound.named_by call.caller hleads.holds.intended
    obtain rfl := hworktree tree htree
    have hcommit : ((createCommit s.site.worktree tree aim.sha).commits aim.sha).at =
        content w₀ := by
      show (Function.update s.site.worktree.commits aim.sha tree aim.sha).at = content w₀
      rw [Function.update_self]
      exact hcontent
    have hstays : Stays w₀ aim.sha s.site
        { s.site with worktree := createCommit s.site.worktree tree aim.sha } :=
      ⟨id, fun _ => hcommit, id⟩
    refine h.keeps hsettled rfl hstays ?_ (h.replaces hcalls hstays
      ⟨fun hmade => absurd hnone hmade, hindex, fun _ => hcommit, fun _ => Option.some_ne_none _⟩)
    rcases h.place with hbetween | ⟨hlanded, hstored⟩
    · exact .inl (hbetween.committed (haim.sha_ne hG haccepted) tree)
    · exact .inr ⟨hlanded.committed hcontent, hstored⟩

theorem Kept.records (h : Kept w₀ s aim) (hcalls : s.calls = before ++ call :: after)
    (hpoint : call.point = .created) (hrecord : record call s.site = .ok (call', site)) :
    Kept w₀ { s with site, calls := before ++ call' :: after } aim := by
  have hsettled := h.settled.records hcalls hrecord
  obtain ⟨hleads, hbacked⟩ := h.leads hcalls
  obtain ⟨hindex, hcommit, hmust⟩ : Done _ _ _ { call with point := .created } :=
    hbacked.at_point hpoint
  obtain ⟨hnone, rfl, rfl⟩ | ⟨sha, records, x, hmade, hcreated, rfl, rfl⟩ := record_ok hrecord
  · exact h.keeps hsettled rfl (Stays.refl _ _ _) h.place (h.replaces hcalls (Stays.refl _ _ _)
      ⟨hbacked.known, hindex, fun hunmade => hmust hunmade hnone⟩)
  · have hcommitted := hcommit (hmade ▸ Option.some_ne_none sha)
    have hstores := created_stores (h.settled.runId (h.settled.call hcalls).1) hcreated
    have htold : Told records := told_of_stores hstores (Option.some_ne_none _)
    unfold created at hcreated
    rw [locked_bind_ok] at hcreated
    refine h.stores hsettled rfl hstores.frame.id (fun _ => hcommitted) (fun _ => htold)
      hstores.frame.grown (fun hfree e he => ?_)
      (h.replaces hcalls ⟨id, id, fun _ => htold⟩
        ⟨fun _ => ⟨htold, hcommitted⟩, hindex, Option.some_ne_none _⟩)
    rw [byKey_of_save (stage_ok.mp hcreated), hfree] at he
    cases he

/-- A commit that is attached is the head of the branch, or becomes it. -/
theorem attach_ok {validated : Except Error Unit}
    (h : GitDeliveryService.attach w workspace sha validated = .ok w') :
    w.head = sha ∧ w' = w ∨ w.head = workspace.baseCommit ∧ w' = { w with head := sha } := by
  obtain ⟨_, -, h⟩ := bind_eq_ok.mp h
  obtain ⟨-, h⟩ := ite_error_eq_ok.mp h
  split_ifs at h with hhead hbase
  · cases h
    exact .inl ⟨hhead, rfl⟩
  · cases h
    exact .inr ⟨not_not.mp hbase, rfl⟩

theorem Kept.moves (h : Kept w₀ s aim) (haim : aim.Of I G workspace w₀)
    (hG : Naming.Proper P G) (haccepted : Accepted I workspace report w₀)
    (hcalls : s.calls = before ++ call :: after) (hpoint : call.point = .recorded)
    (hmove : move call s.site = .ok (call', site)) (hsha : call.delivery.commitSha = some sha) :
    Kept w₀ { s with site, calls := before ++ call' :: after, landed := sha :: s.landed } aim := by
  have hsettled := h.settled.moves hcalls hmove hsha
  obtain ⟨hleads, hbacked⟩ := h.leads hcalls
  obtain ⟨hindex, hmade⟩ : Done _ _ _ { call with point := .recorded } := hbacked.at_point hpoint
  obtain ⟨htold, hcommit⟩ := hbacked.known hmade
  obtain ⟨sha', worktree, hsha', hattach, rfl, rfl⟩ := move_ok hmove
  obtain rfl : sha' = aim.sha := hleads.holds.sha sha' hsha'
  obtain ⟨-, rfl⟩ | ⟨hhead, rfl⟩ := attach_ok hattach
  · exact h.keeps hsettled rfl (Stays.refl _ _ _) h.place
      (h.replaces hcalls (Stays.refl _ _ _) ⟨hbacked.known, hmade⟩)
  · rw [hleads.workspace, haim.workspace] at hhead
    have hlanded := (h.between haim hG haccepted hhead).lands hindex hcommit
    have hstays : Stays w₀ aim.sha s.site
        { s.site with worktree := { s.site.worktree with head := aim.sha } } :=
      ⟨id, id, id⟩
    exact h.keeps hsettled rfl hstays (.inr ⟨hlanded, htold⟩)
      (h.replaces hcalls hstays ⟨hbacked.known, hmade⟩)

/-- The copies of a delivery have one identifier. -/
theorem Kept.delivery_id (h : Kept w₀ s aim) (hleads : aim.Leads s.landed call) :
    call.delivery.id = deliveryId s.site.records.run.id := by
  have hid : call.delivery.id = aim.intended.id := (congrArg GitDelivery.id hleads.holds.intended :)
  exact hid.trans h.identified

theorem Kept.finishes (h : Kept w₀ s aim) (hcalls : s.calls = before ++ call :: after)
    (hpoint : call.point = .moved) {delivery : GitDelivery}
    (hfinish : finish P call s.site = .ok (delivery, site)) :
    Kept w₀ { s with site, calls := before ++ after } aim := by
  have hsettled := h.settled.finishes hcalls hpoint hfinish
  obtain ⟨hleads, hbacked⟩ := h.leads hcalls
  have hmade : call.delivery.commitSha ≠ none := hbacked.at_point hpoint
  obtain ⟨⟨x, records⟩, hattach, hfinish⟩ := bind_eq_ok.mp hfinish
  cases hfinish
  have hattach := transact_ok.mp hattach
  have hstores := attach_stores (h.settled.runId (h.settled.call hcalls).1) hattach
  have htold : Told records := told_of_stores hstores hmade
  unfold attach at hattach
  rw [locked_bind_ok] at hattach
  obtain ⟨r, hsave, hnote⟩ := stage_bind_ok.mp hattach
  refine h.stores hsettled rfl hstores.frame.id (fun _ => (hbacked.known hmade).2)
    (fun _ => htold) hstores.frame.grown (fun hfree e he => ?_)
    fun x hx => (h.drops hcalls x hx).mono ⟨id, id, fun _ => htold⟩
  obtain ⟨-, rfl⟩ := byKey_after_note hnote ((byKey_of_save hsave).trans hfree) he
  obtain ⟨sha, hsha⟩ := Option.ne_none_iff_exists'.mp hmade
  refine ⟨rfl, ?_, rfl, rfl⟩
  show ({ summary := call.delivery.commitSha } : EventPayload) = _
  rw [hsha, hleads.holds.sha sha hsha]

theorem Kept.checks (h : Kept w₀ s aim) {c : Caller}
    (hcheck : check project c s.site = .ok (call, site)) :
    Kept w₀ { s with site, calls := call :: s.calls } aim := by
  have hsettled := h.settled.checks hcheck
  obtain ⟨⟨delivery, records⟩, hdelivery, hcheck⟩ := bind_eq_ok.mp hcheck
  obtain ⟨_, -, hcheck⟩ := bind_eq_ok.mp hcheck
  cases hcheck
  obtain ⟨hstored, hmade⟩ := checkPush_ok (transact_ok.mp hdelivery)
  have hsome : delivery.commitSha ≠ none := Option.isSome_iff_ne_none.mp hmade
  have htold : Told s.site.records := ⟨delivery, hstored, hsome⟩
  refine h.keeps hsettled rfl (Stays.refl _ _ _) h.place fun x hx => ?_
  rcases List.mem_cons.mp hx with rfl | hx
  · exact ⟨fun _ => ⟨htold, h.known htold⟩, hsome⟩
  · exact h.calls x hx

theorem Kept.sends (h : Kept w₀ s aim) (hcalls : s.calls = before ++ call :: after)
    (hpoint : call.point = .checked) {reached : Except Error Unit}
    (hsend : send call reached s.site = .ok sha) :
    Kept w₀ { s with calls := before ++ { call with point := .sent } :: after,
                     sent := sha :: s.sent } aim := by
  obtain ⟨-, hbacked⟩ := h.leads hcalls
  have hmade : call.delivery.commitSha ≠ none := hbacked.at_point hpoint
  exact h.keeps (h.settled.sends hcalls hsend) rfl (Stays.refl _ _ _) h.place
    (h.replaces hcalls (Stays.refl _ _ _) ⟨hbacked.known, hmade⟩)

/-- The event of a commit has a key of its own. -/
theorem commitKey_ne {id : UUID} {key : String} (hkey : key.toList.head? ≠ some 'c') :
    commitKey id ≠ key := by
  rintro rfl
  refine hkey ?_
  show ("commit:" ++ (deliveryId id).text).toList.head? = _
  rw [String.toList_append]
  rfl

theorem Kept.acknowledges (h : Kept w₀ s aim) (hcalls : s.calls = before ++ call :: after)
    (hpoint : call.point = .sent) {delivery : GitDelivery}
    (hacknowledge : acknowledge P call s.site = .ok (delivery, site)) :
    Kept w₀ { s with site, calls := before ++ after } aim := by
  have hsettled := h.settled.acknowledges hcalls hacknowledge
  obtain ⟨hleads, hbacked⟩ := h.leads hcalls
  have hmade : call.delivery.commitSha ≠ none := hbacked.at_point hpoint
  obtain ⟨⟨x, records⟩, hpushed, hacknowledge⟩ := bind_eq_ok.mp hacknowledge
  cases hacknowledge
  have hpushed := transact_ok.mp hpushed
  have hstores := pushed_stores (h.settled.runId (h.settled.call hcalls).1) hpushed
  have htold : Told records := told_of_stores hstores hmade
  unfold pushed at hpushed
  rw [locked_bind_ok] at hpushed
  obtain ⟨r, hsave, hnote⟩ := stage_bind_ok.mp hpushed
  refine h.stores hsettled rfl hstores.frame.id (fun _ => (hbacked.known hmade).2)
    (fun _ => htold) hstores.frame.grown (fun hfree e he => ?_)
    fun x hx => (h.drops hcalls x hx).mono ⟨id, id, fun _ => htold⟩
  obtain ⟨hkey, -⟩ := byKey_after_note hnote ((byKey_of_save hsave).trans hfree) he
  refine absurd hkey (commitKey_ne ?_)
  show ("push:" ++ call.delivery.id.text).toList.head? ≠ _
  rw [String.toList_append]
  simp

/-- A kept delivery stays kept, whatever happens to it. -/
theorem Kept.turn (h : Kept w₀ s aim) (haim : aim.Of I G workspace w₀) (hG : Naming.Proper P G)
    (haccepted : Accepted I workspace report w₀) (hreported : Reported s.site.records report)
    (hturn : Turn P I G project (Stages workspace report) s s') : Kept w₀ s' aim := by
  cases hturn with
  | aside hcmd hkeys hleads => exact h.aside hcmd hkeys hleads
  | touched htouched => exact h.touched haim hG haccepted htouched
  | stopped hcalls => exact h.stopped hcalls
  | intends c hintend => exact h.intends hintend
  | certifies hcalls _ hcertify => exact h.certifies haim hG haccepted hreported hcalls hcertify
  | creates hcalls hpoint hcreate => exact h.creates haim hG haccepted hcalls hpoint hcreate
  | records hcalls hpoint hrecord => exact h.records hcalls hpoint hrecord
  | moves hcalls hpoint hmove hsha => exact h.moves haim hG haccepted hcalls hpoint hmove hsha
  | finishes hcalls hpoint hfinish => exact h.finishes hcalls hpoint hfinish
  | checks c hcheck => exact h.checks hcheck
  | sends hcalls hpoint _ hsend => exact h.sends hcalls hpoint hsend
  | acknowledges hcalls hpoint hacknowledge => exact h.acknowledges hcalls hpoint hacknowledge

/-! ### The first step -/

/-- The first transaction of a first commit leaves the key of the last, and the inspections. -/
theorem begin_leaves {c : Caller} {tree : Except Error String} {r r' : Records}
    {delivery : GitDelivery} (hnone : r.delivery = .ok none)
    (hkey : r.byKey (commitKey r.run.id) = none)
    (h : begin' P (some project) c.policy c.actorId c.name c.email tree c.begun r =
      .ok (delivery, r')) :
    r'.byKey (commitKey r.run.id) = none ∧ r'.guardians = r.guardians := by
  obtain ⟨_, stored, r₁, x, -, hstored, hidentity, h⟩ := begin_ok h
  obtain rfl : none = stored := Except.ok.inj (hnone.symm.trans hstored)
  obtain ⟨reports, -, h⟩ := ask_bind_ok.mp h
  obtain ⟨_, -, h⟩ := found_bind_ok.mp h
  obtain ⟨_, -, h⟩ := ask_bind_ok.mp h
  rw [read_bind_ok] at h
  obtain ⟨goal, -, h⟩ := found_bind_ok.mp h
  obtain ⟨r₂, hsave, h⟩ := stage_bind_ok.mp h
  obtain ⟨-, rfl⟩ := pure_ok.mp h
  rw [byKey_of_save hsave, guardians_of_save hsave]
  unfold recordIdentity at hidentity
  rw [read_bind_ok] at hidentity
  split_ifs at hidentity
  · refine ⟨?_, ?_⟩
    · by_contra hsome
      obtain ⟨e, he⟩ := Option.ne_none_iff_exists'.mp hsome
      obtain ⟨hsame, -⟩ := byKey_after_note hidentity hkey he
      have hother : "git:identity".toList.head? ≠ some 'c' := by decide
      exact absurd hsame (commitKey_ne hother)
    · unfold Records.guardians
      rw [(frame_of_note (quiet_of_apart (by rfl)) hidentity).guardians (by decide)]
  · obtain ⟨-, rfl⟩ := pure_ok.mp hidentity
    exact ⟨hkey, rfl⟩

/-- The message of a commit is not blank. -/
theorem message_not_blank (run : Run) (goal : GoalContract) (workspace : RunWorkspace)
    (report : ChangeReport) : isBlank (message run goal workspace report) = false := by
  unfold message isBlank
  simp only [String.toList_append, List.all_append]
  rfl

/-- The first call of a delivery aims at the tree of the accepted worktree, and keeps to it. -/
theorem Fresh.intends (h : Fresh workspace w₀ s) (haccepted : Accepted I workspace report w₀)
    (hreported : Reported s.site.records report) {c : Caller}
    (hintend : intend P I G project c s.site = .ok (call, site)) :
    ∃ aim : Aim, aim.Of I G workspace w₀ ∧
      Kept w₀ { s with site, calls := call :: s.calls } aim ∧
      Reported site.records report := by
  obtain ⟨aim, hsound, hsettled⟩ := intend_first h.pristine hintend
  obtain ⟨delivery, records, workspace', hbegin, hworkspace, rfl, rfl⟩ := intend_ok hintend
  obtain rfl : workspace = workspace' :=
    Option.some.inj (Except.ok.inj (h.workspace.symm.trans hworkspace))
  obtain ⟨workspace', _, treeName, htree, hintends⟩ :=
    begin_first h.pristine.delivery h.pristine.identity hbegin
  obtain rfl : workspace = workspace' :=
    Option.some.inj (Except.ok.inj (hworkspace.symm.trans hintends.bound))
  obtain ⟨⟨tree, worktree⟩, hstaged, rfl⟩ := map_eq_ok.mp htree
  obtain ⟨reports, report', hreports, hlast, hstage⟩ := stageFirst_ok hworkspace hstaged
  obtain ⟨reports', hreports', hlast'⟩ := hreported
  obtain rfl : reports = reports' := Except.ok.inj (hreports.symm.trans hreports')
  obtain rfl : report = report' := Option.some.inj (hlast'.symm.trans hlast)
  obtain ⟨rfl, hcontent⟩ := h.between.staged haccepted hstage
  obtain ⟨hfree, hguardians⟩ := begin_leaves h.pristine.delivery h.key hbegin
  obtain ⟨goal, hmeant⟩ := hintends.meant
  have hworktree : stagedWorktree I c s.site = { s.site.worktree with index := tree } := by
    unfold stagedWorktree
    rw [h.pristine.delivery, hstaged]
  have hunmade : delivery.commitSha = none := by
    rw [hmeant]
    rfl
  have hintended : intention delivery = aim.intended :=
    (hsettled.calls _ List.mem_cons_self).holds.intended
  have hid : records.run.id = s.site.records.run.id := hintends.stores.frame.id
  refine ⟨aim, ⟨hsound, ?_, ?_, ?_⟩, ⟨hsettled, ?_, .inl ?_, ?_, fun x hx => ?_, fun e he => ?_⟩,
    reports, hguardians ▸ hreports, hlast⟩
  · exact (hsettled.calls _ List.mem_cons_self).workspace.symm
  · have hname : delivery.gitTreeSha = aim.intended.gitTreeSha :=
      (congrArg GitDelivery.gitTreeSha hintended :)
    rw [← hname, hmeant, ← hcontent]
    rfl
  · have hmessage : delivery.commitMessage = aim.intended.commitMessage :=
      (congrArg GitDelivery.commitMessage hintended :)
    rw [← hmessage, hmeant]
    exact message_not_blank _ _ _ _
  · have hname : delivery.id = aim.intended.id := (congrArg GitDelivery.id hintended :)
    rw [← hname, hmeant, hid]
    rfl
  · show Between w₀ (stagedWorktree I c s.site)
    rw [hworktree]
    exact h.between.indexed fun path => .inr (congrFun hcontent path)
  · rintro ⟨stored, hstored, hmade⟩
    obtain rfl : delivery = stored :=
      Option.some.inj (Except.ok.inj (hintends.stores.delivery.symm.trans hstored))
    exact absurd hunmade hmade
  · obtain rfl := List.mem_singleton.mp (h.pristine.calls ▸ hx)
    exact ⟨fun hmade => absurd hunmade hmade, trivial⟩
  · rw [hid, hfree] at he
    cases he

/-- A fresh delivery stays fresh, or is kept from its first call on. -/
theorem Fresh.turn (h : Fresh workspace w₀ s) (haccepted : Accepted I workspace report w₀)
    (hreported : Reported s.site.records report)
    (hturn : Turn P I G project (Stages workspace report) s s') :
    Fresh workspace w₀ s' ∨ ∃ aim : Aim, aim.Of I G workspace w₀ ∧ Kept w₀ s' aim := by
  cases hturn with
  | aside hcmd hkeys hleads =>
    refine .inl ⟨h.pristine.aside hcmd hkeys hleads, aside_workspace h.workspace hleads, ?_,
      h.between⟩
    rw [hleads.frame.id]
    exact hkeys _ (List.mem_cons_of_mem _ List.mem_cons_self) h.key
  | touched htouched =>
    have hbetween := htouched.between h.between haccepted
    obtain ⟨hdelivery, hidentity, hcalls, hlanded, hsent⟩ := h.pristine
    exact .inl ⟨⟨hdelivery, hidentity, hcalls, hlanded, hsent⟩, h.workspace, h.key, hbetween⟩
  | intends c hintend =>
    obtain ⟨aim, haim, hkept, -⟩ := h.intends haccepted hreported hintend
    exact .inr ⟨aim, haim, hkept⟩
  | checks c hcheck => exact absurd hcheck h.pristine.no_check
  | stopped hcalls | certifies hcalls | creates hcalls | records hcalls | moves hcalls
  | finishes hcalls | sends hcalls | acknowledges hcalls => exact absurd hcalls h.pristine.no_call

/-- In a run whose last final inspection stays, a fresh delivery stays fresh or is kept. -/
theorem Fresh.run (h : Fresh workspace w₀ s) (hG : Naming.Proper P G)
    (haccepted : Accepted I workspace report w₀) (hreported : Reported s.site.records report)
    (hrun : Relation.ReflTransGen (fun s s' => Turn P I G project (Stages workspace report) s s' ∧
      Reported s'.site.records report) s s') : Reported s'.site.records report ∧
      (Fresh workspace w₀ s' ∨ ∃ aim : Aim, aim.Of I G workspace w₀ ∧ Kept w₀ s' aim) := by
  induction hrun with
  | refl => exact ⟨hreported, .inl h⟩
  | tail _ hturn ih =>
    obtain ⟨hbefore, hfresh | ⟨aim, haim, hkept⟩⟩ := ih
    · exact ⟨hturn.2, hfresh.turn haccepted hbefore hturn.1⟩
    · exact ⟨hturn.2, .inr ⟨aim, haim, hkept.turn haim hG haccepted hbefore hturn.1⟩⟩

end Kept

/-! ## The next call -/

/-- A caller the gates of a commit let in, with a message that needs no redaction; where the event
of the commit is stored, it is the caller's. -/
structure Ready (P : Primitives) (G : Naming) (project : Project) (w₀ : Worktree) (c : Caller)
    (r : Records) : Prop where
  validated : c.validated = .ok ()
  admitted : ∃ delivery r', begin' P (some project) c.policy c.actorId c.name c.email
    (.ok (G.tree (content w₀))) c.begun r = .ok (delivery, r') ∧
      P.redact delivery.commitMessage = delivery.commitMessage
  own : ∀ e, r.byKey (commitKey r.run.id) = some e →
    e.actorSessionId = some c.actorId ∧ e.phase = some r.run.uiPhase

/-- A call that lacks nothing to come to its end. -/
structure Able (P : Primitives) (site : Site) (call : Call) : Prop where
  validated : call.caller.validated = .ok ()
  redacted : P.redact call.delivery.commitMessage = call.delivery.commitMessage
  identity : call.identity ≠ none
  told : Told site.records → call.delivery.commitSha ≠ none
  own : ∀ e, site.records.byKey (commitKey site.records.run.id) = some e →
    e.actorSessionId = some call.caller.actorId ∧ e.phase = some site.records.run.uiPhase

section Next

variable {P : Primitives} {I : Inspector} {G : Naming} {project : Project}
  {workspace : RunWorkspace} {report : ChangeReport} {w₀ : Worktree} {s : Delivering} {aim : Aim}
  {c : Caller} {call : Call} {before after : List Call}

/-- Where a delivery is stored, the tree that was staged does not matter. -/
theorem begin_tree {policy : DeliveryPolicy} {actorId : UUID} {name email : String}
    {tree tree' : Except Error String} {now : Time} {r r' : Records}
    {stored delivery : GitDelivery} (hstored : r.delivery = .ok (some stored))
    (h : begin' P (some project) policy actorId name email tree now r = .ok (delivery, r')) :
    begin' P (some project) policy actorId name email tree' now r = .ok (delivery, r') := by
  unfold begin' at h ⊢
  rw [locked_bind_ok] at h ⊢
  obtain ⟨hstate, h⟩ := failIf_bind_ok.mp h
  obtain ⟨actor, hactor, h⟩ := Reads.workingActor.bind_ok h
  obtain ⟨x, hguard, h⟩ := Reads.guardDelivery.bind_ok h
  obtain ⟨found, hfound, h⟩ := ask_bind_ok.mp h
  obtain ⟨workspace, hworkspace, h⟩ := found_bind_ok.mp h
  obtain ⟨project', hproject, h⟩ := found_bind_ok.mp h
  obtain ⟨hpush, h⟩ := failIf_bind_ok.mp h
  obtain ⟨o, ho, h⟩ := ask_bind_ok.mp h
  obtain rfl : some stored = o := Except.ok.inj (hstored.symm.trans ho)
  refine failIf_bind_ok.mpr ⟨hstate, bind_ok.mpr ⟨actor, r, hactor, bind_ok.mpr ⟨x, r, hguard,
    ask_bind_ok.mpr ⟨found, hfound, found_bind_ok.mpr ⟨workspace, hworkspace,
      found_bind_ok.mpr ⟨project', hproject, failIf_bind_ok.mpr ⟨hpush,
        ask_bind_ok.mpr ⟨_, ho, h⟩⟩⟩⟩⟩⟩⟩⟩

/-- The first call of a ready caller begins. -/
theorem Fresh.begins (h : Fresh workspace w₀ s) (haccepted : Accepted I workspace report w₀)
    (hreported : Reported s.site.records report)
    (hready : Ready P G project w₀ c s.site.records) : ∃ call site,
      intend P I G project c s.site = .ok (call, site) ∧ Able P site call := by
  obtain ⟨delivery, r', hbegin, hredacted⟩ := hready.admitted
  obtain ⟨tree, hstage, hcontent⟩ := h.between.stages haccepted
  have hstaged : stageFirst I c s.site = .ok (tree, { s.site.worktree with index := tree }) := by
    unfold stageFirst
    rw [workspaceOf_ok.mpr h.workspace, ok_bind, stageFinal_of_reported hreported,
      hready.validated]
    exact hstage
  have hintend : intend P I G project c s.site = .ok
      ({ caller := c, workspace, identity := r'.byKey "git:identity", delivery,
         point := .intended }, { records := r', worktree := stagedWorktree I c s.site }) := by
    unfold intend
    rw [hstaged]
    show (transact (begin' _ _ _ _ _ _ (.ok (G.tree tree.at)) _) _ >>= _) = _
    rw [hcontent, transact_ok.mpr hbegin, ok_bind, workspaceOf_ok.mpr h.workspace]
    rfl
  obtain ⟨_, _, _, -, hintends⟩ := begin_first h.pristine.delivery h.pristine.identity hbegin
  obtain ⟨hfree, -⟩ := begin_leaves h.pristine.delivery h.key hbegin
  obtain ⟨e, he, -⟩ := hintends.identity
  refine ⟨_, _, hintend, hready.validated, hredacted, ?_, fun htold => ?_, fun e he => ?_⟩
  · rw [he]
    exact Option.some_ne_none _
  · obtain ⟨stored, hstored, hmade⟩ := htold
    obtain rfl : delivery = stored :=
      Option.some.inj (Except.ok.inj (hintends.stores.delivery.symm.trans hstored))
    exact hmade
  · rw [show r'.run.id = s.site.records.run.id from hintends.stores.frame.id, hfree] at he
    cases he

/-- A later call of a ready caller begins. -/
theorem Kept.begins (h : Kept w₀ s aim) (hready : Ready P G project w₀ c s.site.records) :
    ∃ call site, intend P I G project c s.site = .ok (call, site) ∧ Able P site call := by
  obtain ⟨delivery, r', hbegin, hredacted⟩ := hready.admitted
  obtain ⟨stored, hstored, -⟩ := h.settled.stored
  have hkey : (s.site.records.byKey "git:identity").isSome := by
    rw [h.settled.identity]
    rfl
  obtain ⟨rfl, rfl⟩ := begin_again hstored hkey hbegin
  have hintend : intend P I G project c s.site = .ok
      ({ caller := c, workspace := aim.workspace,
         identity := s.site.records.byKey "git:identity", delivery, point := .intended },
        { s.site with worktree := stagedWorktree I c s.site }) := by
    unfold intend
    rw [transact_ok.mpr (begin_tree hstored hbegin), ok_bind,
      workspaceOf_ok.mpr h.settled.workspace]
    rfl
  refine ⟨_, _, hintend, hready.validated, hredacted, ?_, fun htold => ?_, hready.own⟩
  · exact Option.isSome_iff_ne_none.mp hkey
  · obtain ⟨d, hd, hmade⟩ := htold
    obtain rfl : delivery = d := Option.some.inj (Except.ok.inj (hstored.symm.trans hd))
    exact hmade

/-- The worktree is found as the intent has it. -/
theorem Kept.certified (h : Kept w₀ s aim) (haim : aim.Of I G workspace w₀)
    (hG : Naming.Proper P G) (haccepted : Accepted I workspace report w₀)
    (hreported : Reported s.site.records report) (hcalls : s.calls = before ++ call :: after)
    (hable : Able P s.site call) :
    ∃ call' site, certify I G call s.site = .ok (call', site) ∧
      call'.point = .certified ∧ Able P site call' := by
  obtain ⟨hleads, -⟩ := h.leads hcalls
  have hworkspace : call.workspace = workspace := hleads.workspace.trans haim.workspace
  have hable' (staged : Option GitTree) (worktree : Worktree) :
      Able P { s.site with worktree } { call with staged, point := .certified } :=
    ⟨hable.validated, hable.redacted, hable.identity, hable.told, hable.own⟩
  unfold certify
  split_ifs with hhead hchanged
  · have hbetween := h.between haim hG haccepted (hhead.trans (congrArg _ hworkspace))
    obtain ⟨tree, hstage, hcontent⟩ := hbetween.stages haccepted
    have htree : G.tree tree.at = call.delivery.gitTreeSha := by
      have hname : call.delivery.gitTreeSha = aim.intended.gitTreeSha :=
        (congrArg GitDelivery.gitTreeSha hleads.holds.intended :)
      rw [hname, haim.tree, hcontent]
    have hsame : stageFinal I call.caller.validated call.workspace s.site =
        .ok (tree, { s.site.worktree with index := tree }) := by
      rw [hworkspace, stageFinal_of_reported hreported, hable.validated]
      exact hstage
    rw [hsame, ok_bind]
    exact ⟨_, _, if_neg (not_not.mpr htree), rfl, hable' _ _⟩
  · exfalso
    rcases h.place with hbetween | ⟨hlanded, htold⟩
    · rw [hworkspace] at hhead
      exact hhead (hbetween.head.trans haccepted.verified.1)
    · obtain ⟨sha, hsha⟩ := Option.ne_none_iff_exists'.mp (hable.told htold)
      rcases hchanged with hother | hstatus
      · refine hother ?_
        rw [hsha, hleads.holds.sha sha hsha, hlanded.head]
      · exact hstatus hlanded.clean
  · exact ⟨_, _, rfl, rfl, hable' _ _⟩

/-- The commit is made. -/
theorem Kept.created (h : Kept w₀ s aim) (haim : aim.Of I G workspace w₀)
    (hcalls : s.calls = before ++ call :: after) (hable : Able P s.site call) :
    ∃ call' site, create P G call s.site = .ok (call', site) ∧
      call'.point = .created ∧ Able P site call' := by
  obtain ⟨hleads, -⟩ := h.leads hcalls
  have hmessage : call.delivery.commitMessage = aim.intended.commitMessage :=
    (congrArg GitDelivery.commitMessage hleads.holds.intended :)
  unfold create
  cases hsha : call.delivery.commitSha with
  | some sha =>
    exact ⟨_, _, rfl, rfl, hable.validated, hable.redacted, hable.identity, hable.told,
      hable.own⟩
  | none =>
    obtain ⟨identity, hidentity⟩ := Option.ne_none_iff_exists'.mp hable.identity
    rw [hidentity]
    dsimp only
    rw [if_neg]
    · exact ⟨_, _, rfl, rfl, hable.validated, hable.redacted, Option.some_ne_none _,
        hable.told, hable.own⟩
    · rintro (hredacted | hblank)
      · exact hredacted hable.redacted
      · rw [hmessage, haim.message] at hblank
        cases hblank

/-- A copy of the delivery can be stored. -/
theorem Kept.saves (h : Kept w₀ s aim) (hleads : aim.Leads s.landed call) (delivery : GitDelivery)
    (hid : delivery.id = call.delivery.id) :
    ∃ r', s.site.records.saveDelivery delivery = .ok r' := by
  obtain ⟨stored, hstored, hholds⟩ := h.settled.stored
  have hsame : intention stored = intention call.delivery :=
    hholds.intended.trans hleads.holds.intended.symm
  have hstoredId : stored.id = call.delivery.id := (congrArg GitDelivery.id hsame :)
  exact save_of_stored hstored (hstoredId.trans hid.symm)

/-- The commit is recorded. -/
theorem Kept.recorded (h : Kept w₀ s aim) (hcalls : s.calls = before ++ call :: after)
    (hable : Able P s.site call) : ∃ call' site, record call s.site = .ok (call', site) ∧
      call'.point = .recorded ∧ Able P site call' := by
  obtain ⟨hleads, -⟩ := h.leads hcalls
  unfold record
  cases hmade : call.made with
  | none =>
    exact ⟨_, _, rfl, rfl, hable.validated, hable.redacted, hable.identity, hable.told,
      hable.own⟩
  | some sha =>
    obtain ⟨r', hsave⟩ := h.saves hleads { call.delivery with commitSha := some sha } rfl
    have hcreated : CommitService.created call.delivery sha s.site.records = .ok ((), r') := by
      unfold CommitService.created
      rw [locked_bind_ok]
      exact stage_ok.mpr hsave
    have hstores := created_stores (h.settled.runId (h.settled.call hcalls).1) hcreated
    dsimp only
    rw [transact_ok.mpr hcreated]
    refine ⟨_, _, rfl, rfl, hable.validated, hable.redacted, hable.identity,
      fun _ => Option.some_ne_none _, fun e he => ?_⟩
    dsimp only at he ⊢
    rw [byKey_of_save hsave, hstores.frame.id] at he
    rw [hstores.frame.uiPhase (by decide)]
    exact hable.own e he

/-- The branch is moved. -/
theorem Kept.moved (h : Kept w₀ s aim) (haim : aim.Of I G workspace w₀)
    (haccepted : Accepted I workspace report w₀)
    (hcalls : s.calls = before ++ call :: after) (hpoint : call.point = .recorded)
    (hable : Able P s.site call) : ∃ call' site, move call s.site = .ok (call', site) ∧
      call.delivery.commitSha = some aim.sha ∧ site.worktree.head = aim.sha ∧
      call'.point = .moved ∧ Able P site call' := by
  obtain ⟨hleads, hbacked⟩ := h.leads hcalls
  obtain ⟨-, hmade⟩ : Done _ _ _ { call with point := .recorded } := hbacked.at_point hpoint
  obtain ⟨sha, hsha⟩ := Option.ne_none_iff_exists'.mp hmade
  obtain rfl : sha = aim.sha := hleads.holds.sha sha hsha
  have hbranch : s.site.worktree.branch = some workspace.branch := by
    rcases h.place with hbetween | ⟨hlanded, -⟩
    · exact hbetween.branch.trans haccepted.verified.2
    · exact hlanded.branch.trans haccepted.verified.2
  have hattach : ∃ worktree, GitDeliveryService.attach s.site.worktree call.workspace aim.sha
      call.caller.validated = .ok worktree ∧ worktree.head = aim.sha := by
    unfold GitDeliveryService.attach
    rw [hable.validated, ok_bind, hleads.workspace, haim.workspace, if_neg (not_not.mpr hbranch)]
    split_ifs with hhead hbase
    · exact ⟨_, rfl, hhead⟩
    · exfalso
      rcases h.place with hbetween | ⟨hlanded, -⟩
      · exact hbase (hbetween.head.trans haccepted.verified.1)
      · exact hhead hlanded.head
    · exact ⟨_, rfl, rfl⟩
  obtain ⟨worktree, hattach, hhead⟩ := hattach
  refine ⟨{ call with point := .moved }, { s.site with worktree }, ?_, hsha, hhead, rfl,
    hable.validated, hable.redacted, hable.identity, hable.told, hable.own⟩
  unfold move
  rw [hsha]
  dsimp only
  rw [hattach]
  rfl

/-- The call comes to its end. -/
theorem Kept.finished (h : Kept w₀ s aim) (hG : Naming.Proper P G)
    (haim : aim.Of I G workspace w₀) (hcalls : s.calls = before ++ call :: after)
    (hpoint : call.point = .moved) (hable : Able P s.site call) : ∃ records,
      finish P call s.site =
        .ok ({ call.delivery with commitAttached := true }, { s.site with records }) ∧
      call.delivery.commitSha = some aim.sha ∧
      records.delivery = .ok (some { call.delivery with commitAttached := true }) := by
  obtain ⟨hleads, hbacked⟩ := h.leads hcalls
  have hmade : call.delivery.commitSha ≠ none := hbacked.at_point hpoint
  obtain ⟨sha, hsha⟩ := Option.ne_none_iff_exists'.mp hmade
  obtain rfl : sha = aim.sha := hleads.holds.sha sha hsha
  obtain ⟨r, hsave⟩ := h.saves hleads { call.delivery with commitAttached := true } rfl
  have hkey : s!"commit:{call.delivery.id.text}" = commitKey s.site.records.run.id := by
    rw [h.delivery_id hleads]
    rfl
  let draft : EventDraft :=
    { eventType := .commitCreated
      occurredAt := call.caller.ended
      idempotencyKey := s!"commit:{call.delivery.id.text}"
      payload := { summary := call.delivery.commitSha }
      actorSessionId := some call.caller.actorId }
  have hnote : ∃ r', note P s.site.records.run draft r = .ok ((), r') := by
    refine note_of_key (fun _ => ?_) fun e he => ?_
    · obtain ⟨name, email, -, -, -, -, hnamed⟩ := haim.sound.named
      show ([] ++ [] ++ [] ++ [] ++ call.delivery.commitSha.toList ++ []).all P.safe = true
      rw [hsha, hnamed]
      simp [hG.safe]
    · rw [show draft.idempotencyKey = _ from hkey, byKey_of_save hsave] at he
      obtain ⟨htype, hpayload, htask, hexecution⟩ := h.answered e he
      obtain ⟨hactor, hphase⟩ := hable.own e he
      refine decide_eq_true ⟨htype, hpayload.trans ?_, htask, hactor, hexecution, hphase⟩
      show _ = ({ summary := call.delivery.commitSha } : EventPayload)
      rw [hsha]
  obtain ⟨r', hnote⟩ := hnote
  have hattach : CommitService.attach P call.delivery call.caller.actorId call.caller.ended
      s.site.records = .ok ((), r') := by
    unfold CommitService.attach
    rw [locked_bind_ok]
    exact stage_bind_ok.mpr ⟨r, hsave, hnote⟩
  refine ⟨r', ?_, hsha,
    (attach_stores (h.settled.runId (h.settled.call hcalls).1) hattach).delivery⟩
  unfold finish
  rw [transact_ok.mpr hattach]
  rfl

/-- A delivery whose commit holds the tree of the accepted worktree, and whose branch is at it. -/
structure Committed (w₀ : Worktree) (sha : String) (delivery : GitDelivery) (site : Site) :
    Prop where
  named : delivery.commitSha = some sha
  attached : delivery.commitAttached = true
  stored : site.records.delivery = .ok (some delivery)
  landed : Landed w₀ sha site.worktree

/-- A call that has begun comes to its end. -/
theorem Kept.ends {site : Site} (hintend : intend P I G project c s.site = .ok (call, site))
    (h : Kept w₀ { s with site, calls := call :: s.calls } aim) (haim : aim.Of I G workspace w₀)
    (hG : Naming.Proper P G) (haccepted : Accepted I workspace report w₀)
    (hreported : Reported site.records report) (hable : Able P site call) :
    ∃ delivery site, commit P I G project c s.site = .ok (delivery, site) ∧
      Committed w₀ aim.sha delivery site := by
  have hcons (site : Site) (call : Call) (landed : List String) :
      ({ s with site, calls := call :: s.calls, landed } : Delivering).calls =
        [] ++ call :: s.calls := rfl
  obtain ⟨call₂, site₂, hcertify, hpoint₂, hable₂⟩ :=
    h.certified haim hG haccepted hreported (hcons _ _ _) hable
  have h₂ := h.certifies haim hG haccepted hreported (hcons _ _ _) hcertify
  obtain ⟨call₃, site₃, hcreate, hpoint₃, hable₃⟩ := h₂.created haim (hcons _ _ _) hable₂
  have h₃ := h₂.creates haim hG haccepted (hcons _ _ _) hpoint₂ hcreate
  obtain ⟨call₄, site₄, hrecord, hpoint₄, hable₄⟩ := h₃.recorded (hcons _ _ _) hable₃
  have h₄ := h₃.records (hcons _ _ _) hpoint₃ hrecord
  obtain ⟨call₅, site₅, hmove, hsha, hhead, hpoint₅, hable₅⟩ :=
    h₄.moved haim haccepted (hcons _ _ _) hpoint₄ hable₄
  have h₅ := h₄.moves haim hG haccepted (hcons _ _ _) hpoint₄ hmove hsha
  obtain ⟨records, hfinish, hsha₅, hstored⟩ :=
    h₅.finished hG haim (hcons _ _ _) hpoint₅ hable₅
  refine ⟨{ call₅.delivery with commitAttached := true }, { site₅ with records },
    bind_eq_ok.mpr ⟨_, hintend, bind_eq_ok.mpr ⟨_, hcertify, bind_eq_ok.mpr ⟨_, hcreate,
      bind_eq_ok.mpr ⟨_, hrecord, bind_eq_ok.mpr ⟨_, hmove, hfinish⟩⟩⟩⟩⟩, hsha₅, rfl, hstored,
    h₅.landed haim hG haccepted hhead⟩

end Next

/-! ### A commit that stopped -/

namespace Sample

open Orqalis.Sample

theorem naming_proper : Naming.Proper primitives naming where
  safe object := decide_eq_true rfl
  parent object := by
    show ite _ _ _ ≠ _
    split_ifs with h
    · rw [h]
      decide
    · exact Ne.symm h

theorem ok_of_toOption {ε α : Type} {m : Except ε α} {a : α} (h : m.toOption = some a) :
    m = .ok a := by
  cases m with
  | error e => cases h
  | ok b => exact congrArg Except.ok (Option.some.inj h)

/-- The worktree of the edit is accepted. -/
theorem accepted {workspace : RunWorkspace} {report : ChangeReport} (hpassed : report.passed = true)
    (hchanges : report.changes.map (fun c => (c.path, c.status)) = [("b.txt", "modified")])
    (records : Records) (hdigest : workspaceDigest finalInspector workspace.baseCommit
      ((siteOf records).worktree.checkout workspace) = .ok report.treeHash) :
    Accepted finalInspector workspace report (siteOf records).worktree := by
  have hstatus : edited.status = ["b.txt"] := by decide +kernel
  have hlies : edited.lies "b.txt" = some { mode := "100644", bytes := line } := by
    decide +kernel
  have hnode : edited.node "b.txt" = some (.regular line false) := by decide +kernel
  have hbase : edited.base.at "b.txt" = some { mode := "100644", bytes := earlierLine } := by
    decide +kernel
  refine ⟨hpassed, ?_, fun change hchange => ?_, hdigest, fun path hpath => ?_⟩
  · have hpaths := congrArg (List.map Prod.fst) hchanges
    rw [List.map_map] at hpaths
    exact hpaths.trans hstatus.symm
  · have hmem := List.mem_map_of_mem (f := fun c : ChangedFile => (c.path, c.status)) hchange
    rw [hchanges] at hmem
    obtain ⟨hpath, hmodified⟩ := Prod.mk.inj (List.mem_singleton.mp hmem)
    have hthere : (siteOf records).worktree.node change.path = some (.regular line false) := by
      rw [hpath]
      exact hnode
    refine ⟨rfl, iff_of_false ?_ ?_, .inr ⟨_, _, hthere⟩⟩
    · rw [hmodified]
      decide
    · rw [hthere]
      exact Option.some_ne_none _
  · obtain rfl := List.mem_singleton.mp (hstatus ▸ hpath)
    refine ⟨?_, fun _ => ⟨fun h => ?_, fun h => ?_⟩, fun e e₀ he he₀ => ?_⟩
    · show edited.lies "b.txt" ≠ edited.base.at "b.txt"
      rw [hlies, hbase]
      decide
    · exact absurd (hbase.symm.trans h) (Option.some_ne_none _)
    · exact absurd (hbase.symm.trans h) (Option.some_ne_none _)
    · obtain rfl := Option.some.inj (hlies.symm.trans he)
      obtain rfl := Option.some.inj (hbase.symm.trans he₀)
      rfl

end Sample

end CommitService

end Orqalis
