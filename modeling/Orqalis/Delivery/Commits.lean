import Orqalis.Core.Fulfilment
import Orqalis.Core.Labor
import Orqalis.Core.Reach
import Orqalis.Delivery.Staging

/-!
# The commit of a delivery

A commit takes three transactions, and between them it works on the repository: it stages the
accepted tree, makes the commit object, and moves the branch. Either can stop after any step, the
next call begins from what is stored, and between two steps anything may be done to the working
tree. A push checks the records, sends the commit, and stores that it did.

A commit object has its name from what it holds. All it holds is stored with the intent, so every
call makes one and the same.
-/

namespace Orqalis

open Lib Lib.Outcome Lib.Transaction

namespace CommitService

/-! ## Calls -/

/-- A commit, as Git stores it. -/
structure CommitObject where
  tree : String
  parent : String
  message : String
  time : Time
  author : String × String

/-- What Git calls a tree and a commit: each by what it holds. -/
structure Naming where
  tree : (String → Option TreeEntry) → String
  commit : CommitObject → String

/-- What a caller brings: its policy and its actor, the name and the address of the repository's
configuration, what came of the check of the branch, and the clock. A commit is made in a name. -/
structure Caller where
  policy : DeliveryPolicy
  actorId : UUID
  name : String
  email : String
  validated : Except Error Unit
  begun : Time
  ended : Time
  named : policy.authorName.getD name ≠ "" ∧ policy.authorEmail.getD email ≠ ""

/-- The records of a run and its worktree. -/
structure Site where
  records : Records
  worktree : Worktree

/-- How far a call has come. -/
inductive Point
  | intended
  | certified
  | created
  | recorded
  | moved
  | checked
  | sent
deriving DecidableEq

/-- A call under way, with what it has read: the workspace, whose name the commit is made in, the
delivery, the tree it staged and the commit it made, if it did. -/
structure Call where
  caller : Caller
  workspace : RunWorkspace
  identity : Option Event
  delivery : GitDelivery
  staged : Option GitTree := none
  made : Option String := none
  point : Point

/-- Carry out a transaction. -/
def transact {α : Type} (m : RunTx α) (r : Records) : Except Error (α × Records) :=
  match m r with
  | .ok result => .ok result
  | .error refusal => .error refusal.error

/-- The workspace of a run, which a delivery needs. -/
def workspaceOf (r : Records) : Except Error RunWorkspace := do
  match ← r.workspace with
  | some workspace => .ok workspace
  | none => .error (.notFound "Delivery workspace/project missing")

variable (P : Primitives) (I : Inspector) (G : Naming) (project : Project)

/-- Stage what the final inspection found. -/
def stageFinal (validated : Except Error Unit) (workspace : RunWorkspace) (s : Site) :
    Except Error (GitTree × Worktree) := do
  let reports ← s.records.guardians
  match lastReport .final reports with
  | none => .error (.runtime "IndexError")
  | some report => GitDeliveryService.stage I s.worktree workspace report validated

/-- What the first step stages. -/
def stageFirst (c : Caller) (s : Site) : Except Error (GitTree × Worktree) := do
  let workspace ← workspaceOf s.records
  stageFinal I c.validated workspace s

/-- The worktree after the first step. The tree is staged only where no intent is stored. -/
def stagedWorktree (c : Caller) (s : Site) : Worktree :=
  match s.records.delivery, stageFirst I c s with
  | .ok none, .ok (_, worktree) => worktree
  | _, _ => s.worktree

/-- The first step: store the intent. -/
def intend (c : Caller) (s : Site) : Except Error (Call × Site) := do
  let (delivery, records) ← transact
    (begin' P (some project) c.policy c.actorId c.name c.email
      ((stageFirst I c s).map fun result => G.tree result.1.at) c.begun) s.records
  let workspace ← workspaceOf s.records
  return ({ caller := c, workspace, identity := records.byKey "git:identity", delivery,
            point := .intended }, { records, worktree := stagedWorktree I c s })

/-- The second step: the worktree is that of the intent, at the base with the tree staged again, or
at the commit without a change. -/
def certify (call : Call) (s : Site) : Except Error (Call × Site) :=
  if s.worktree.head = call.workspace.baseCommit then do
    let (tree, worktree) ← stageFinal I call.caller.validated call.workspace s
    if G.tree tree.at ≠ call.delivery.gitTreeSha then
      .error (.conflict "Staged tree no longer matches the commit intent")
    else
      .ok ({ call with staged := some tree, point := .certified }, { s with worktree })
  else if some s.worktree.head ≠ call.delivery.commitSha ∨ s.worktree.status ≠ [] then
    .error (.conflict "Workspace changed after commit intent")
  else
    .ok ({ call with point := .certified }, s)

/-- Whose name a commit is made in: the recorded one, else the configured one. -/
def author (c : Caller) (identity : Event) : String × String :=
  match identity.payload.gitAuthorName, identity.payload.gitAuthorEmail with
  | some name, some email => if name ≠ "" ∧ email ≠ "" then (name, email) else (c.name, c.email)
  | _, _ => (c.name, c.email)

/-- The commit of a delivery. -/
def commitObject (delivery : GitDelivery) (base : String) (author : String × String) :
    CommitObject where
  tree := delivery.gitTreeSha
  parent := base
  message := delivery.commitMessage
  time := delivery.createdAt
  author

/-- The third step: make the commit object, where no commit is recorded. -/
def create (call : Call) (s : Site) : Except Error (Call × Site) :=
  match call.delivery.commitSha with
  | some _ => .ok ({ call with point := .created }, s)
  | none =>
    match call.identity with
    | none => .error (.runtime "AssertionError")
    | some identity =>
      if P.redact call.delivery.commitMessage ≠ call.delivery.commitMessage ∨
          isBlank call.delivery.commitMessage then
        .error (.policyDenied "Commit message contains unsafe content")
      else
        let sha := G.commit (commitObject call.delivery call.workspace.baseCommit
          (author call.caller identity))
        let worktree :=
          match call.staged with
          | some tree => GitDeliveryService.createCommit s.worktree tree sha
          | none => s.worktree
        .ok ({ call with made := some sha, point := .created }, { s with worktree })

/-- The fourth step: record the commit that was made. -/
def record (call : Call) (s : Site) : Except Error (Call × Site) :=
  match call.made with
  | none => .ok ({ call with point := .recorded }, s)
  | some sha => do
    let (_, records) ← transact (created call.delivery sha) s.records
    return ({ call with delivery := { call.delivery with commitSha := some sha },
                        point := .recorded }, { s with records })

/-- The fifth step: move the branch. -/
def move (call : Call) (s : Site) : Except Error (Call × Site) :=
  match call.delivery.commitSha with
  | none => .error (.runtime "AssertionError")
  | some sha => do
    let worktree ← GitDeliveryService.attach s.worktree call.workspace sha call.caller.validated
    return ({ call with point := .moved }, { s with worktree })

/-- The last step: record that the branch has the commit. -/
def finish (call : Call) (s : Site) : Except Error (GitDelivery × Site) := do
  let (_, records) ← transact (attach P call.delivery call.caller.actorId call.caller.ended)
    s.records
  return ({ call.delivery with commitAttached := true }, { s with records })

/-- `CommitService.commit` -/
def commit (c : Caller) (s : Site) : Except Error (GitDelivery × Site) := do
  let (call, s) ← intend P I G project c s
  let (call, s) ← certify I G call s
  let (call, s) ← create P G call s
  let (call, s) ← record call s
  let (call, s) ← move call s
  finish P call s

/-- The first step of a push: what it rests on. -/
def check (c : Caller) (s : Site) : Except Error (Call × Site) := do
  let (delivery, _) ← transact (checkPush (some project) c.actorId) s.records
  let workspace ← workspaceOf s.records
  return ({ caller := c, workspace, identity := none, delivery, point := .checked }, s)

/-- What a push must find before it sends anything. `reached` is what came of the checks of the
destination. -/
def send (call : Call) (reached : Except Error Unit) (s : Site) : Except Error String := do
  match call.delivery.commitSha with
  | none => .error (.runtime "AssertionError")
  | some sha =>
    if call.delivery.policy.push = false then
      .error (.policyDenied "Push is not authorized by delivery policy")
    else do
      call.caller.validated
      if s.worktree.branch ≠ some call.workspace.branch ∨ s.worktree.head ≠ sha ∨
          s.worktree.status ≠ [] then
        .error (.policyDenied "Only the accepted run commit may be pushed")
      else do
        reached
        return sha

/-- The last step of a push: record that it was done. -/
def acknowledge (call : Call) (s : Site) : Except Error (GitDelivery × Site) := do
  let (_, records) ← transact (pushed P call.delivery call.caller.actorId call.caller.ended)
    s.records
  return ({ call.delivery with pushStatus := .pushed }, { s with records })

/-! ## Deliveries under way -/

/-- A delivery under way: its records and its worktree, the calls that run, and the commits the
branch was moved to or found at and those that were sent. -/
structure Delivering where
  site : Site
  calls : List Call := []
  landed : List String := []
  sent : List String := []

/-- Whether a command is no transaction of a commit or a push. -/
def besides : Command → Bool
  | .beginCommit .. | .commitCreated .. | .commitAttached .. | .pushed .. => false
  | _ => true

/-- The identifier of a delivery. -/
def deliveryId (runId : UUID) : UUID := .uuid5 runId "git-delivery"

/-- The key of the event of a commit. -/
def commitKey (runId : UUID) : String := s!"commit:{(deliveryId runId).text}"

/-- The keys of the events of a commit and a push. -/
def ownKeys (runId : UUID) : List String :=
  ["git:identity", commitKey runId, s!"push:{(deliveryId runId).text}"]

variable (touches : Worktree → Worktree → Prop)

/-- What can happen to a delivery: a command of another service, under a key of its own; whatever
touches the worktree; the stop of a call; and the next step of one. -/
inductive Turn : Delivering → Delivering → Prop
  | aside {s cmd records} (hcmd : besides cmd = true)
      (hkeys : ∀ key ∈ ownKeys s.site.records.run.id,
        s.site.records.byKey key = none → records.byKey key = none)
      (h : cmd.Leads P project s.site.records records) :
      Turn s { s with site := { s.site with records } }
  | touched {s worktree} (h : touches s.site.worktree worktree) :
      Turn s { s with site := { s.site with worktree } }
  | stopped {s before call after} (hcalls : s.calls = before ++ call :: after) :
      Turn s { s with calls := before ++ after }
  | intends {s call site} (c : Caller) (h : intend P I G project c s.site = .ok (call, site)) :
      Turn s { s with site, calls := call :: s.calls }
  | certifies {s before call after call' site} (hcalls : s.calls = before ++ call :: after)
      (hpoint : call.point = .intended) (h : certify I G call s.site = .ok (call', site)) :
      Turn s { s with site, calls := before ++ call' :: after }
  | creates {s before call after call' site} (hcalls : s.calls = before ++ call :: after)
      (hpoint : call.point = .certified) (h : create P G call s.site = .ok (call', site)) :
      Turn s { s with site, calls := before ++ call' :: after }
  | records {s before call after call' site} (hcalls : s.calls = before ++ call :: after)
      (hpoint : call.point = .created) (h : record call s.site = .ok (call', site)) :
      Turn s { s with site, calls := before ++ call' :: after }
  | moves {s before call after call' site sha} (hcalls : s.calls = before ++ call :: after)
      (hpoint : call.point = .recorded) (h : move call s.site = .ok (call', site))
      (hsha : call.delivery.commitSha = some sha) :
      Turn s { s with site, calls := before ++ call' :: after, landed := sha :: s.landed }
  | finishes {s before call after delivery site} (hcalls : s.calls = before ++ call :: after)
      (hpoint : call.point = .moved) (h : finish P call s.site = .ok (delivery, site)) :
      Turn s { s with site, calls := before ++ after }
  | checks {s call site} (c : Caller) (h : check project c s.site = .ok (call, site)) :
      Turn s { s with site, calls := call :: s.calls }
  | sends {s before call after reached sha} (hcalls : s.calls = before ++ call :: after)
      (hpoint : call.point = .checked) (hpending : call.delivery.pushStatus ≠ .pushed)
      (h : send call reached s.site = .ok sha) :
      Turn s { s with calls := before ++ { call with point := .sent } :: after,
                      sent := sha :: s.sent }
  | acknowledges {s before call after delivery site} (hcalls : s.calls = before ++ call :: after)
      (hpoint : call.point = .sent) (h : acknowledge P call s.site = .ok (delivery, site)) :
      Turn s { s with site, calls := before ++ after }

/-! ## What the transactions do -/

section Transactions

variable {P I G project} {r r' : Records} {delivery : GitDelivery}

theorem transact_ok {α : Type} {m : RunTx α} {a : α} :
    transact m r = .ok (a, r') ↔ m r = .ok (a, r') := by
  unfold transact
  cases m r with
  | ok result => exact ⟨fun h => congrArg Except.ok (Except.ok.inj h), fun h =>
      congrArg Except.ok (Except.ok.inj h)⟩
  | error refusal => exact iff_of_false (by simp) (by simp)

theorem workspaceOf_ok {workspace : RunWorkspace} :
    workspaceOf r = .ok workspace ↔ r.workspace = .ok (some workspace) := by
  unfold workspaceOf
  rw [Outcome.bind_eq_ok]
  constructor
  · rintro ⟨o, ho, h⟩
    cases o with
    | none => cases h
    | some w =>
      cases h
      exact ho
  · intro h
    exact ⟨_, h, rfl⟩

/-- What is stored as the delivery of a run is its delivery. -/
theorem delivery_of_save (h : r.saveDelivery delivery = .ok r')
    (hrun : delivery.runId = r.run.id) : r'.delivery = .ok (some delivery) := by
  unfold Records.saveDelivery at h
  obtain ⟨d, -, h⟩ := Outcome.bind_eq_ok.mp h
  obtain ⟨existing, -, h⟩ := Outcome.bind_eq_ok.mp h
  split_ifs at h
  cases h
  exact if_pos hrun

theorem runId_of_delivery (h : r.delivery = .ok (some delivery)) : delivery.runId = r.run.id := by
  unfold Records.delivery at h
  obtain ⟨d, -, h⟩ := Outcome.bind_eq_ok.mp h
  cases hgit : d.gitDelivery with
  | none =>
    rw [hgit] at h
    cases h
  | some g =>
    rw [hgit] at h
    dsimp only at h
    split_ifs at h with hrun
    cases h
    exact hrun

/-- An event under a quiet key changes nothing but the log. -/
theorem frame_of_note {run : Run} {draft : EventDraft} {x : Unit} (hquiet : draft.Quiet)
    (h : note P run draft r = .ok (x, r')) : Frame [] r r' :=
  Within.stored (Within.note hquiet) (stored_of_ok h)

/-- What a transaction that stores a delivery leaves: the delivery, and the rest of what a commit
rests on. -/
structure Stores (r r' : Records) (delivery : GitDelivery) : Prop where
  delivery : r'.delivery = .ok (some delivery)
  frame : Frame [.certificates] r r'

theorem stores_of_save (h : r.saveDelivery delivery = .ok r')
    (hrun : delivery.runId = r.run.id) : Stores r r' delivery :=
  ⟨delivery_of_save h hrun, frame_saveDelivery h⟩

theorem Stores.noted {s : Records} {run : Run} {draft : EventDraft} {x : Unit}
    (h : Stores r s delivery) (hquiet : draft.Quiet) (hnote : note P run draft s = .ok (x, r')) :
    Stores r r' delivery := by
  have hframe := frame_of_note hquiet hnote
  exact ⟨(hframe.delivery (by decide)).trans h.delivery,
    h.frame.trans (hframe.mono (by decide))⟩

theorem created_stores {sha : String} {x : Unit} (hrun : delivery.runId = r.run.id)
    (h : created delivery sha r = .ok (x, r')) :
    Stores r r' { delivery with commitSha := some sha } := by
  unfold created at h
  rw [locked_bind_ok] at h
  exact stores_of_save (stage_ok.mp h) hrun

theorem attach_stores {actorId : UUID} {now : Time} {x : Unit} (hrun : delivery.runId = r.run.id)
    (h : attach P delivery actorId now r = .ok (x, r')) :
    Stores r r' { delivery with commitAttached := true } := by
  unfold attach at h
  rw [locked_bind_ok] at h
  obtain ⟨s, hs, h⟩ := stage_bind_ok.mp h
  exact (stores_of_save hs hrun).noted (quiet_of_apart (by rfl)) h

theorem pushed_stores {actorId : UUID} {now : Time} {x : Unit} (hrun : delivery.runId = r.run.id)
    (h : pushed P delivery actorId now r = .ok (x, r')) :
    Stores r r' { delivery with pushStatus := .pushed } := by
  unfold pushed at h
  rw [locked_bind_ok] at h
  obtain ⟨s, hs, h⟩ := stage_bind_ok.mp h
  exact (stores_of_save hs hrun).noted (quiet_of_apart (by rfl)) h

theorem checkPush_ok {actorId : UUID}
    (h : checkPush (some project) actorId r = .ok (delivery, r')) :
    r.delivery = .ok (some delivery) ∧ delivery.commitSha.isSome := by
  unfold checkPush at h
  rw [locked_bind_ok] at h
  obtain ⟨-, h⟩ := failIf_bind_ok.mp h
  obtain ⟨actor, -, h⟩ := Reads.workingActor.bind_ok h
  obtain ⟨x, -, h⟩ := Reads.guardDelivery.bind_ok h
  obtain ⟨stored, hstored, h⟩ := ask_bind_ok.mp h
  obtain ⟨found, hfound, h⟩ := found_bind_ok.mp h
  obtain ⟨project', -, h⟩ := found_bind_ok.mp h
  obtain ⟨-, h⟩ := failIf_bind_ok.mp h
  obtain ⟨rfl, -⟩ := pure_ok.mp h
  obtain ⟨hsome, hmade⟩ := Option.filter_eq_some_iff.mp hfound
  exact ⟨hsome ▸ hstored, hmade⟩

end Transactions

/-! ## The intent -/

section Intent

variable {P I G project} {r r' : Records} {delivery : GitDelivery} {policy : DeliveryPolicy}
  {actorId : UUID} {name email : String} {tree : Except Error String} {now : Time}

/-- The first transaction of a commit records an identity and stores an intent. -/
theorem begin_ok (h : begin' P (some project) policy actorId name email tree now r =
      .ok (delivery, r')) : ∃ workspace stored s x, r.workspace = .ok (some workspace) ∧
      r.delivery = .ok stored ∧
      recordIdentity P r.run actorId policy stored name email now r = .ok (x, s) ∧
      storeIntent r.run workspace policy stored tree now s = .ok (delivery, r') := by
  unfold begin' at h
  rw [locked_bind_ok] at h
  obtain ⟨-, h⟩ := failIf_bind_ok.mp h
  obtain ⟨actor, -, h⟩ := Reads.workingActor.bind_ok h
  obtain ⟨x, -, h⟩ := Reads.guardDelivery.bind_ok h
  obtain ⟨found, hfound, h⟩ := ask_bind_ok.mp h
  obtain ⟨workspace, hworkspace, h⟩ := found_bind_ok.mp h
  obtain ⟨project', -, h⟩ := found_bind_ok.mp h
  obtain ⟨-, h⟩ := failIf_bind_ok.mp h
  obtain ⟨stored, hstored, h⟩ := ask_bind_ok.mp h
  obtain ⟨-, h⟩ := failIf_bind_ok.mp h
  obtain ⟨x, s, hs, h⟩ := bind_ok.mp h
  exact ⟨workspace, stored, s, x, hworkspace ▸ hfound, hstored, hs, h⟩

/-- The first event under a key answers for it. -/
theorem byKey_of_note {run : Run} {draft : EventDraft} {x : Unit}
    (hkey : r.byKey draft.idempotencyKey = none) (h : note P run draft r = .ok (x, r')) :
    ∃ e, r'.byKey draft.idempotencyKey = some e ∧ e.payload = draft.payload := by
  obtain ⟨e, he⟩ := note_ok.mp h
  obtain ⟨hsame, -, hpayload, -, ⟨rfl, hmem⟩ | hevents⟩ := append_events he
  · have hnot := List.find?_eq_none.mp hkey e hmem
    exact absurd (decide_eq_true hsame) hnot
  · refine ⟨e, ?_, hpayload⟩
    unfold Records.byKey at hkey ⊢
    rw [hevents, List.find?_append, hkey, Option.none_or]
    exact List.find?_cons_of_pos (decide_eq_true hsame)

/-- Where no identity is recorded, the one of the caller is. -/
theorem recordIdentity_first {x : Unit} (hkey : r.byKey "git:identity" = none)
    (h : recordIdentity P r.run actorId policy none name email now r = .ok (x, r')) :
    Frame [] r r' ∧ ∃ e, r'.byKey "git:identity" = some e ∧
      e.payload.gitAuthorName = some (policy.authorName.getD name) ∧
      e.payload.gitAuthorEmail = some (policy.authorEmail.getD email) := by
  unfold recordIdentity at h
  rw [read_bind_ok] at h
  split_ifs at h with hfirst
  · obtain ⟨e, he, hpayload⟩ := byKey_of_note hkey h
    exact ⟨frame_of_note (quiet_of_apart (by rfl)) h, e, he, by rw [hpayload], by rw [hpayload]⟩
  · exact absurd ⟨Option.isNone_iff_eq_none.mpr hkey, rfl⟩ hfirst

/-- A recorded identity stays. -/
theorem recordIdentity_again {stored : Option GitDelivery} {x : Unit}
    (hkey : (r.byKey "git:identity").isSome)
    (h : recordIdentity P r.run actorId policy stored name email now r = .ok (x, r')) :
    r' = r := by
  unfold recordIdentity at h
  rw [read_bind_ok] at h
  split_ifs at h with hfirst
  · have hnone := Option.isNone_iff_eq_none.mp hfirst.1
    rw [show id r = r from rfl] at hnone
    rw [hnone] at hkey
    cases hkey
  · exact (pure_ok.mp h).2

/-- What the first commit of a delivery leaves: its intent, of the tree that was staged from the
last final report, and the name it is made in. -/
structure Intends (r r' : Records) (c : Caller) (workspace : RunWorkspace) (report : ChangeReport)
    (treeName : String) (delivery : GitDelivery) : Prop where
  bound : r.workspace = .ok (some workspace)
  reported : ∃ reports, r.guardians = .ok reports ∧ lastReport .final reports = some report
  meant : ∃ goal, delivery = intent r.run workspace goal report c.policy treeName c.begun
  stores : Stores r r' delivery
  identity : ∃ e, r'.byKey "git:identity" = some e ∧
    e.payload.gitAuthorName = some (c.policy.authorName.getD c.name) ∧
    e.payload.gitAuthorEmail = some (c.policy.authorEmail.getD c.email)

theorem begin_first {c : Caller} (hnone : r.delivery = .ok none)
    (hkey : r.byKey "git:identity" = none)
    (h : begin' P (some project) c.policy c.actorId c.name c.email tree c.begun r =
      .ok (delivery, r')) : ∃ workspace report treeName, tree = .ok treeName ∧
      Intends r r' c workspace report treeName delivery := by
  obtain ⟨workspace, stored, s, x, hworkspace, hstored, hs, h⟩ := begin_ok h
  obtain rfl : none = stored := Except.ok.inj (hnone.symm.trans hstored)
  obtain ⟨hframe, e, he, hnamed⟩ := recordIdentity_first hkey hs
  obtain ⟨reports, hreports, h⟩ := ask_bind_ok.mp h
  obtain ⟨report, hreport, h⟩ := found_bind_ok.mp h
  obtain ⟨treeName, htree, h⟩ := ask_bind_ok.mp h
  rw [read_bind_ok] at h
  obtain ⟨goal, hgoal, h⟩ := found_bind_ok.mp h
  obtain ⟨s', hs', h⟩ := stage_bind_ok.mp h
  obtain ⟨rfl, rfl⟩ := pure_ok.mp h
  have hguardians : r.guardians = .ok reports := by
    unfold Records.guardians at hreports ⊢
    rw [hframe.guardians (by decide)] at hreports
    exact hreports
  have hstores := stores_of_save hs' hframe.id.symm
  refine ⟨workspace, report, treeName, htree, hworkspace, ⟨reports, hguardians, hreport⟩,
    ⟨goal, rfl⟩, ⟨hstores.delivery, (hframe.mono (by decide)).trans hstores.frame⟩, e, ?_, hnamed⟩
  have hevents : r'.byKey "git:identity" = s.byKey "git:identity" := by
    unfold Records.saveDelivery at hs'
    obtain ⟨d, -, hs'⟩ := Outcome.bind_eq_ok.mp hs'
    obtain ⟨existing, -, hs'⟩ := Outcome.bind_eq_ok.mp hs'
    split_ifs at hs'
    cases hs'
    rfl
  rw [hevents]
  exact he

/-- A later commit of a delivery stores nothing first. -/
theorem begin_again {stored : GitDelivery} (hsome : r.delivery = .ok (some stored))
    (hkey : (r.byKey "git:identity").isSome)
    (h : begin' P (some project) policy actorId name email tree now r = .ok (delivery, r')) :
    delivery = stored ∧ r' = r := by
  obtain ⟨workspace, stored', s, x, -, hstored, hs, h⟩ := begin_ok h
  obtain rfl : some stored = stored' := Except.ok.inj (hsome.symm.trans hstored)
  obtain rfl := recordIdentity_again hkey hs
  exact pure_ok.mp h

end Intent

/-! ## What the other services leave alone -/

section Asides

variable {P project} {r r' : Records} {cmd : Command}

/-- Records with the same delivery. -/
def SameDelivery (r r' : Records) : Prop := r'.delivery = r.delivery

instance isPreorder_sameDelivery : IsPreorder Records SameDelivery where
  refl _ := rfl
  trans _ _ _ h h' := Eq.trans h' h

theorem saveGuardian_delivery {report : ChangeReport} (h : r.saveGuardian report = .ok r') :
    SameDelivery r r' := by
  unfold Records.saveGuardian at h
  obtain ⟨values, -, h⟩ := Outcome.bind_eq_ok.mp h
  split_ifs at h
  obtain ⟨findings, -, h⟩ := Outcome.bind_eq_ok.mp h
  obtain ⟨d, hd, h⟩ := Outcome.bind_eq_ok.mp h
  cases h
  unfold SameDelivery Records.delivery
  rw [hd, Outcome.ok_bind]
  rfl

theorem saveValidation_delivery {validation : FinalValidation}
    (h : r.saveValidation validation = .ok r') : SameDelivery r r' := by
  unfold Records.saveValidation at h
  obtain ⟨values, -, h⟩ := Outcome.bind_eq_ok.mp h
  split_ifs at h
  obtain ⟨d, hd, h⟩ := Outcome.bind_eq_ok.mp h
  cases h
  unfold SameDelivery Records.delivery
  rw [hd, Outcome.ok_bind]
  rfl

theorem effects_of_within {α : Type} {id : UUID} {S : List Part} {m : RunTx α}
    (h : Within id S m) (hS : Part.certificates ∉ S) : Effects SameDelivery id m :=
  .of_within h fun _ _ hframe => hframe.delivery hS

theorem inspect_delivery {id actorId : UUID} {policy : DeliveryPolicy} {fingerprint : String}
    {checkpoint : Checkpoint} {inspection : GuardianService.Inspection} {n : Nat} {now : Time} :
    Effects SameDelivery id
      (GuardianService.inspect P actorId policy fingerprint checkpoint inspection n now) := by
  refine Effects.locked fun run _ => Effects.bind (.of_reads Reads.workingActor) fun _ =>
    Effects.bind (.of_reads (Reads.ask _)) fun _ => Effects.bind (.of_reads (Reads.failIf _ _))
    fun _ => Effects.bind (.of_reads (Reads.read _)) fun _ =>
    Effects.bind (.of_reads (Reads.failIf _ _)) fun _ => Effects.bind (.of_reads (Reads.ask _))
    fun reports => Effects.bind (.of_reads Reads.objections) fun flags => ?_
  dsimp only
  split
  · exact .of_reads (Reads.pure _)
  · exact Effects.bind
      (.staged fun _ _ h => ⟨(frame_saveGuardian h).id, saveGuardian_delivery h⟩) fun _ =>
      Effects.bind (effects_of_within (S := []) (Within.note (quiet_of_apart (by rfl)))
        List.not_mem_nil) fun _ => .of_reads (Reads.pure _)

theorem recordValidation_delivery {id : UUID} {attempt : TaskExecution} {goalId : UUID}
    {evidenceIds : List UUID} {outcome : FinalValidationService.Outcome} {now : Time} :
    Effects SameDelivery id
      (FinalValidationService.record P attempt goalId evidenceIds outcome now) := by
  refine Effects.locked fun run _ => Effects.bind (.of_reads (Reads.read _)) fun _ =>
    Effects.bind (.of_reads (Reads.found _ _)) fun _ =>
    Effects.bind (.of_reads (Reads.ask _)) fun reviews => ?_
  dsimp only
  refine Effects.bind
    (.staged fun _ _ h => ⟨(frame_saveValidation h).id, saveValidation_delivery h⟩) fun _ =>
    Effects.bind (effects_of_within (S := []) (Within.note (quiet_of_status ?_ (by simp)))
      List.not_mem_nil) fun _ => .of_reads (Reads.pure _)
  dsimp only
  split_ifs <;> simp [settledWords, TaskStatus.value, Verdict.value]

/-- No other command touches the delivery of a run. -/
theorem aside_delivery (hcmd : besides cmd = true) (h : cmd.Leads P project r r') :
    r'.delivery = r.delivery := by
  have hframe := h.frame
  obtain ⟨-, hstored⟩ := h
  cases cmd with
  | inspect => exact (inspect_delivery.quietly r r' rfl hstored).2
  | recordValidation => exact (recordValidation_delivery.quietly r r' rfl hstored).2
  | beginCommit | commitCreated | commitAttached | pushed => cases hcmd
  | _ => exact hframe.delivery (by simp [Command.parts])

/-- A workspace stays bound to its run. -/
theorem aside_workspace {workspace : RunWorkspace} (hbound : r.workspace = .ok (some workspace))
    (h : cmd.Leads P project r r') : r'.workspace = .ok (some workspace) := by
  have hframe := h.frame
  obtain ⟨-, hstored⟩ := h
  cases cmd with
  | ensureWorkspace policy path branch baseCommit =>
    have hs := stored_quietly.mp hstored
    unfold Orqalis.ensureWorkspace at hs
    rw [show lockedRun = Transaction.read Records.run from rfl, stored_read_bind] at hs
    obtain ⟨x, -, hs⟩ := (Reads.failIf _ _).stored_bind hs
    obtain ⟨existing, hexisting, hs⟩ := (Reads.ask _).stored_bind hs
    obtain rfl : existing = some workspace :=
      Except.ok.inj ((ask_ok.mp hexisting).1.symm.trans hbound)
    obtain ⟨x, -, hs⟩ := (Reads.failIf _ _).stored_bind hs
    obtain ⟨x, -, hs⟩ := (Reads.failIf _ _).stored_bind hs
    rw [(Reads.bind (Reads.failIf _ _) fun _ => Reads.pure _).stored_eq hs]
    exact hbound
  | _ => exact (hframe.workspace (by simp [Command.parts])).trans hbound

/-- The first event under a key stays the first. -/
theorem byKey_of_grown {key : String} {e : Event} (h : r.events <+: r'.events)
    (hkey : r.byKey key = some e) : r'.byKey key = some e := by
  obtain ⟨l, hl⟩ := h
  unfold Records.byKey at hkey ⊢
  rw [← hl, List.find?_append, hkey]
  rfl

end Asides

/-! ## One commit -/

/-- What of a delivery stays from its intent on. -/
def intention (delivery : GitDelivery) : GitDelivery :=
  { delivery with commitSha := none, commitAttached := false, pushStatus := .notRequested }

/-- A delivery of which nothing is stored and nothing was done. -/
structure Pristine (s : Delivering) : Prop where
  delivery : s.site.records.delivery = .ok none
  identity : s.site.records.byKey "git:identity" = none
  calls : s.calls = []
  landed : s.landed = []
  sent : s.sent = []

/-- What the calls of a delivery have in common. -/
structure Aim where
  intended : GitDelivery
  workspace : RunWorkspace
  identity : Event
  sha : String

/-- A commit has its name from what is stored: the tree that was staged from a final report, and the
name it is made in. -/
structure Aim.Sound (aim : Aim) : Prop where
  intended : intention aim.intended = aim.intended
  base : aim.intended.baseCommit = aim.workspace.baseCommit
  staged : ∃ report worktree validated tree worktree',
    GitDeliveryService.stage I worktree aim.workspace report validated = .ok (tree, worktree') ∧
      aim.intended.gitTreeSha = G.tree tree.at ∧ aim.intended.treeHash = report.treeHash
  named : ∃ name email, aim.identity.payload.gitAuthorName = some name ∧
    aim.identity.payload.gitAuthorEmail = some email ∧ name ≠ "" ∧ email ≠ "" ∧
      aim.sha = G.commit (commitObject aim.intended aim.workspace.baseCommit (name, email))

/-- A copy of a delivery that names no commit but the one. -/
structure Aim.Holds (aim : Aim) (landed : List String) (delivery : GitDelivery) : Prop where
  intended : intention delivery = aim.intended
  sha : ∀ sha, delivery.commitSha = some sha → sha = aim.sha
  attached : delivery.commitAttached = true → aim.sha ∈ landed

/-- A call that makes, moves and sends no commit but the one. -/
structure Aim.Leads (aim : Aim) (landed : List String) (call : Call) : Prop where
  holds : aim.Holds landed call.delivery
  workspace : call.workspace = aim.workspace
  identity : ∀ e, call.identity = some e → e = aim.identity
  made : ∀ sha, call.made = some sha → sha = aim.sha
  moved : call.point = .moved → aim.sha ∈ landed

/-- A delivery with a stored intent: whatever was done, was done with one commit. -/
structure Settled (s : Delivering) (aim : Aim) : Prop where
  stored : ∃ delivery, s.site.records.delivery = .ok (some delivery) ∧ aim.Holds s.landed delivery
  workspace : s.site.records.workspace = .ok (some aim.workspace)
  identity : s.site.records.byKey "git:identity" = some aim.identity
  calls : ∀ call ∈ s.calls, aim.Leads s.landed call
  landed : ∀ sha ∈ s.landed, sha = aim.sha
  sent : ∀ sha ∈ s.sent, sha = aim.sha

/-- One and the same commit: of the tree that was staged from a final report, on the base commit, in
the recorded name. The branch was moved to no other, no other was sent, and none is recorded. -/
structure Sole (s : Delivering) (intended : GitDelivery) (sha : String) : Prop where
  stored : ∃ delivery, s.site.records.delivery = .ok (some delivery) ∧
    intention delivery = intended ∧ (∀ x, delivery.commitSha = some x → x = sha) ∧
      (delivery.commitAttached = true → sha ∈ s.landed)
  named : ∃ e name email, s.site.records.byKey "git:identity" = some e ∧
    e.payload.gitAuthorName = some name ∧ e.payload.gitAuthorEmail = some email ∧
      sha = G.commit (commitObject intended intended.baseCommit (name, email))
  staged : ∃ report worktree workspace validated tree worktree',
    GitDeliveryService.stage I worktree workspace report validated = .ok (tree, worktree') ∧
      intended.gitTreeSha = G.tree tree.at ∧ intended.treeHash = report.treeHash ∧
        intended.baseCommit = workspace.baseCommit
  landed : ∀ x ∈ s.landed, x = sha
  sent : ∀ x ∈ s.sent, x = sha

section Sole

variable {P I G project} {T : Worktree → Worktree → Prop} {s s' : Delivering} {aim : Aim}

theorem Aim.Holds.mono {landed landed' : List String} {delivery : GitDelivery}
    (h : aim.Holds landed delivery) (hsub : landed ⊆ landed') : aim.Holds landed' delivery :=
  ⟨h.intended, h.sha, fun hattached => hsub (h.attached hattached)⟩

theorem Aim.Leads.mono {landed landed' : List String} {call : Call}
    (h : aim.Leads landed call) (hsub : landed ⊆ landed') : aim.Leads landed' call :=
  ⟨h.holds.mono hsub, h.workspace, h.identity, h.made, fun hmoved => hsub (h.moved hmoved)⟩

/-- A copy of a delivery belongs to the run of the stored one. -/
theorem Settled.runId (h : Settled s aim) {call : Call} (hcall : call ∈ s.calls) :
    call.delivery.runId = s.site.records.run.id := by
  obtain ⟨delivery, hstored, hholds⟩ := h.stored
  have hsame : intention call.delivery = intention delivery :=
    (h.calls call hcall).holds.intended.trans hholds.intended.symm
  have hrun : call.delivery.runId = delivery.runId := (congrArg GitDelivery.runId hsame :)
  exact hrun.trans (runId_of_delivery hstored)

/-- Where a copy of the delivery is stored, the delivery stays settled. -/
theorem Settled.stores (h : Settled s aim) {records : Records} {delivery : GitDelivery}
    (hstores : Stores s.site.records records delivery) (hholds : aim.Holds s.landed delivery)
    {calls : List Call} (hcalls : ∀ call ∈ calls, aim.Leads s.landed call) :
    Settled { s with site := { s.site with records }, calls } aim where
  stored := ⟨delivery, hstores.delivery, hholds⟩
  workspace := (hstores.frame.workspace (by decide)).trans h.workspace
  identity := byKey_of_grown hstores.frame.grown h.identity
  calls := hcalls
  landed := h.landed
  sent := h.sent

/-- Where only the worktree and the calls change, the delivery stays settled. -/
theorem Settled.keeps (h : Settled s aim) {worktree : Worktree} {calls : List Call}
    (hcalls : ∀ call ∈ calls, aim.Leads s.landed call) :
    Settled { s with site := { s.site with worktree }, calls } aim :=
  ⟨h.stored, h.workspace, h.identity, hcalls, h.landed, h.sent⟩

/-- Where only the calls change, the delivery stays settled. -/
theorem Settled.keeps_site (h : Settled s aim) {calls : List Call}
    (hcalls : ∀ call ∈ calls, aim.Leads s.landed call) : Settled { s with calls } aim :=
  ⟨h.stored, h.workspace, h.identity, hcalls, h.landed, h.sent⟩

/-- The other calls, and what has become of one. -/
theorem Settled.replaces (h : Settled s aim) {before after : List Call} {call call' : Call}
    (hcalls : s.calls = before ++ call :: after) (hcall' : aim.Leads s.landed call') :
    ∀ x ∈ before ++ call' :: after, aim.Leads s.landed x := by
  intro x hx
  rcases List.mem_append.mp hx with hx | hx
  · exact h.calls x (hcalls ▸ List.mem_append_left _ hx)
  · rcases List.mem_cons.mp hx with rfl | hx
    · exact hcall'
    · exact h.calls x (hcalls ▸ List.mem_append_right _ (List.mem_cons_of_mem _ hx))

theorem Settled.drops (h : Settled s aim) {before after : List Call} {call : Call}
    (hcalls : s.calls = before ++ call :: after) :
    ∀ x ∈ before ++ after, aim.Leads s.landed x := by
  intro x hx
  refine h.calls x (hcalls ▸ ?_)
  rcases List.mem_append.mp hx with hx | hx
  · exact List.mem_append_left _ hx
  · exact List.mem_append_right _ (List.mem_cons_of_mem _ hx)

theorem Settled.call (h : Settled s aim) {before after : List Call} {call : Call}
    (hcalls : s.calls = before ++ call :: after) :
    call ∈ s.calls ∧ aim.Leads s.landed call := by
  have hmem : call ∈ s.calls :=
    hcalls ▸ List.mem_append_right _ (List.mem_cons_self ..)
  exact ⟨hmem, h.calls call hmem⟩

/-- Every call with the recorded identity makes the commit in the same name. -/
theorem Aim.Sound.named_by (h : aim.Sound I G) (c : Caller) {delivery : GitDelivery}
    (hintended : intention delivery = aim.intended) :
    G.commit (commitObject delivery aim.workspace.baseCommit (author c aim.identity)) =
      aim.sha := by
  obtain ⟨name, email, hname, hemail, hnamed, haddressed, hsha⟩ := h.named
  have hauthor : author c aim.identity = (name, email) := by
    unfold author
    rw [hname, hemail]
    exact if_pos ⟨hnamed, haddressed⟩
  rw [hauthor, hsha, ← hintended]
  rfl

/-! ### The steps -/

/-- What a first step that succeeds went through. -/
theorem intend_ok {c : Caller} {site site' : Site} {call : Call}
    (h : intend P I G project c site = .ok (call, site')) :
    ∃ delivery records workspace, begin' P (some project) c.policy c.actorId c.name c.email
        ((stageFirst I c site).map fun result => G.tree result.1.at) c.begun site.records =
          .ok (delivery, records) ∧ site.records.workspace = .ok (some workspace) ∧
      call =
        { caller := c, workspace, identity := records.byKey "git:identity", delivery,
          point := .intended } ∧
      site' = { records, worktree := stagedWorktree I c site } := by
  unfold intend at h
  obtain ⟨⟨delivery, records⟩, hbegin, h⟩ := Outcome.bind_eq_ok.mp h
  obtain ⟨workspace, hworkspace, h⟩ := Outcome.bind_eq_ok.mp h
  cases h
  exact ⟨delivery, records, workspace, transact_ok.mp hbegin, workspaceOf_ok.mp hworkspace, rfl,
    rfl⟩

/-- What was staged first was staged from the last final report. -/
theorem stageFirst_ok {c : Caller} {site : Site} {workspace : RunWorkspace} {tree : GitTree}
    {worktree : Worktree} (hworkspace : site.records.workspace = .ok (some workspace))
    (h : stageFirst I c site = .ok (tree, worktree)) : ∃ reports report,
      site.records.guardians = .ok reports ∧ lastReport .final reports = some report ∧
      GitDeliveryService.stage I site.worktree workspace report c.validated =
        .ok (tree, worktree) := by
  unfold stageFirst at h
  rw [workspaceOf_ok.mpr hworkspace, Outcome.ok_bind] at h
  obtain ⟨reports, hreports, h⟩ := Outcome.bind_eq_ok.mp h
  cases hlast : lastReport .final reports with
  | none =>
    rw [hlast] at h
    cases h
  | some report =>
    rw [hlast] at h
    exact ⟨reports, report, hreports, hlast, h⟩

/-- The first call of a delivery settles it. -/
theorem intend_first (h : Pristine s) {c : Caller} {call : Call} {site : Site}
    (hintend : intend P I G project c s.site = .ok (call, site)) :
    ∃ aim : Aim, aim.Sound I G ∧ Settled { s with site, calls := call :: s.calls } aim := by
  obtain ⟨delivery, records, workspace, hbegin, hworkspace, rfl, rfl⟩ := intend_ok hintend
  obtain ⟨workspace', report, treeName, htree, hintends⟩ :=
    begin_first h.delivery h.identity hbegin
  obtain rfl : workspace = workspace' :=
    Option.some.inj (Except.ok.inj (hworkspace.symm.trans hintends.bound))
  obtain ⟨⟨tree, worktree⟩, hstaged, htree⟩ := map_eq_ok.mp htree
  obtain ⟨reports, hreports, hreport⟩ := hintends.reported
  obtain ⟨reports', report', hreports', hreport', hstage⟩ := stageFirst_ok hworkspace hstaged
  obtain rfl : reports = reports' := Except.ok.inj (hreports.symm.trans hreports')
  obtain rfl : report = report' := Option.some.inj (hreport.symm.trans hreport')
  obtain ⟨goal, hmeant⟩ := hintends.meant
  obtain ⟨e, he, hname, hemail⟩ := hintends.identity
  let author := (c.policy.authorName.getD c.name, c.policy.authorEmail.getD c.email)
  let aim : Aim :=
    { intended := intention delivery
      workspace
      identity := e
      sha := G.commit (commitObject delivery workspace.baseCommit author) }
  have hbase : delivery.baseCommit = workspace.baseCommit := by
    rw [hmeant]
    rfl
  have htreeName : delivery.gitTreeSha = treeName := by
    rw [hmeant]
    rfl
  have htreeHash : delivery.treeHash = report.treeHash := by
    rw [hmeant]
    rfl
  have hunmade : delivery.commitSha = none := by
    rw [hmeant]
    rfl
  have hdetached : delivery.commitAttached = false := by
    rw [hmeant]
    rfl
  have hholds : aim.Holds s.landed delivery := by
    refine ⟨rfl, fun sha hsha => ?_, fun hattached => ?_⟩
    · rw [hunmade] at hsha
      cases hsha
    · rw [hdetached] at hattached
      cases hattached
  refine ⟨aim, ⟨rfl, ?_, ?_, ?_⟩, ?_⟩
  · exact hbase
  · exact ⟨report, s.site.worktree, c.validated, tree, worktree, hstage, htreeName.trans htree.symm,
      htreeHash⟩
  · exact ⟨_, _, hname, hemail, c.named.1, c.named.2, rfl⟩
  · refine ⟨⟨delivery, hintends.stores.delivery, hholds⟩,
      (hintends.stores.frame.workspace (by decide)).trans hworkspace, he, fun x hx => ?_,
      fun sha hsha => ?_, fun sha hsha => ?_⟩
    · obtain rfl := List.mem_singleton.mp (h.calls ▸ hx)
      refine ⟨hholds, rfl, fun e' he' => ?_, fun sha hsha => ?_, fun hpoint => ?_⟩
      · exact Option.some.inj (he'.symm.trans he)
      · cases hsha
      · cases hpoint
    · exact absurd (h.landed ▸ hsha) List.not_mem_nil
    · exact absurd (h.sent ▸ hsha) List.not_mem_nil

/-- A later call of a settled delivery begins from what is stored. -/
theorem Settled.intends (h : Settled s aim) {c : Caller} {call : Call} {site : Site}
    (hintend : intend P I G project c s.site = .ok (call, site)) :
    Settled { s with site, calls := call :: s.calls } aim := by
  obtain ⟨delivery, records, workspace, hbegin, hworkspace, rfl, rfl⟩ := intend_ok hintend
  obtain ⟨stored, hstored, hholds⟩ := h.stored
  have hkey : (s.site.records.byKey "git:identity").isSome := by
    rw [h.identity]
    rfl
  obtain ⟨rfl, rfl⟩ := begin_again hstored hkey hbegin
  refine h.keeps fun x hx => ?_
  rcases List.mem_cons.mp hx with rfl | hx
  · refine ⟨hholds, ?_, fun e he => ?_, fun sha hsha => ?_, fun hpoint => ?_⟩
    · exact Option.some.inj (Except.ok.inj (hworkspace.symm.trans h.workspace))
    · exact Option.some.inj (he.symm.trans h.identity)
    · cases hsha
    · cases hpoint
  · exact h.calls x hx

theorem certify_ok {call call' : Call} {site site' : Site}
    (h : certify I G call site = .ok (call', site')) : ∃ staged worktree,
      call' = { call with staged, point := .certified } ∧ site' = { site with worktree } ∧
      (site.worktree.head = call.workspace.baseCommit ∧ (∃ tree, staged = some tree ∧
          stageFinal I call.caller.validated call.workspace site = .ok (tree, worktree)) ∨
        some site.worktree.head = call.delivery.commitSha ∧ worktree = site.worktree) := by
  unfold certify at h
  split_ifs at h with hhead hchanged
  · obtain ⟨⟨tree, worktree⟩, hstage, h⟩ := bind_eq_ok.mp h
    dsimp only at h
    split_ifs at h
    cases h
    exact ⟨_, _, rfl, rfl, .inl ⟨hhead, tree, rfl, hstage⟩⟩
  · cases h
    exact ⟨_, _, rfl, rfl, .inr ⟨not_not.mp (not_or.mp hchanged).1, rfl⟩⟩

theorem Settled.certifies (h : Settled s aim) {before after : List Call} {call call' : Call}
    {site : Site} (hcalls : s.calls = before ++ call :: after)
    (hcertify : certify I G call s.site = .ok (call', site)) :
    Settled { s with site, calls := before ++ call' :: after } aim := by
  obtain ⟨-, hcall⟩ := h.call hcalls
  obtain ⟨staged, worktree, rfl, rfl, -⟩ := certify_ok hcertify
  refine h.keeps (h.replaces hcalls ⟨hcall.holds, hcall.workspace, hcall.identity, hcall.made, ?_⟩)
  intro hpoint
  cases hpoint

/-- A commit is made in the recorded name, unless one is recorded. -/
theorem create_ok {call call' : Call} {site site' : Site}
    (h : create P G call site = .ok (call', site')) :
    call.delivery.commitSha ≠ none ∧ call' = { call with point := .created } ∧ site' = site ∨
      call.delivery.commitSha = none ∧ ∃ identity sha worktree,
        call.identity = some identity ∧
        sha = G.commit (commitObject call.delivery call.workspace.baseCommit
          (author call.caller identity)) ∧
        call' = { call with made := some sha, point := .created } ∧
        site' = { site with worktree } ∧ ∀ tree, call.staged = some tree →
          worktree = GitDeliveryService.createCommit site.worktree tree sha := by
  unfold create at h
  cases hsha : call.delivery.commitSha with
  | some sha =>
    rw [hsha] at h
    cases h
    exact .inl ⟨Option.some_ne_none _, rfl, rfl⟩
  | none =>
    rw [hsha] at h
    cases hidentity : call.identity with
    | none =>
      rw [hidentity] at h
      cases h
    | some identity =>
      rw [hidentity] at h
      dsimp only at h
      split_ifs at h
      cases h
      refine .inr ⟨rfl, identity, _, _, rfl, rfl, rfl, rfl, fun tree htree => ?_⟩
      rw [htree]

theorem Settled.creates (haim : aim.Sound I G) (h : Settled s aim) {before after : List Call}
    {call call' : Call} {site : Site} (hcalls : s.calls = before ++ call :: after)
    (hcreate : create P G call s.site = .ok (call', site)) :
    Settled { s with site, calls := before ++ call' :: after } aim := by
  obtain ⟨-, hcall⟩ := h.call hcalls
  obtain ⟨-, rfl, rfl⟩ | ⟨-, identity, _, worktree, hidentity, rfl, rfl, rfl, -⟩ :=
    create_ok hcreate
  · refine h.keeps_site
      (h.replaces hcalls ⟨hcall.holds, hcall.workspace, hcall.identity, hcall.made, ?_⟩)
    intro hpoint
    cases hpoint
  · refine h.keeps (h.replaces hcalls
      ⟨hcall.holds, hcall.workspace, hcall.identity, fun sha hsha => ?_, fun hpoint => ?_⟩)
    · obtain rfl := hcall.identity identity hidentity
      rw [← Option.some.inj hsha, hcall.workspace]
      exact haim.named_by call.caller hcall.holds.intended
    · cases hpoint

theorem record_ok {call call' : Call} {site site' : Site}
    (h : record call site = .ok (call', site')) :
    call.made = none ∧ call' = { call with point := .recorded } ∧ site' = site ∨
      ∃ sha records x, call.made = some sha ∧
        created call.delivery sha site.records = .ok (x, records) ∧ call' =
          { call with
            delivery := { call.delivery with commitSha := some sha }
            point := .recorded } ∧ site' = { site with records } := by
  unfold record at h
  cases hmade : call.made with
  | none =>
    rw [hmade] at h
    cases h
    exact .inl ⟨rfl, rfl, rfl⟩
  | some sha =>
    rw [hmade] at h
    obtain ⟨⟨x, records⟩, hcreated, h⟩ := bind_eq_ok.mp h
    cases h
    exact .inr ⟨sha, records, x, rfl, transact_ok.mp hcreated, rfl, rfl⟩

theorem Settled.records (h : Settled s aim) {before after : List Call} {call call' : Call}
    {site : Site} (hcalls : s.calls = before ++ call :: after)
    (hrecord : record call s.site = .ok (call', site)) :
    Settled { s with site, calls := before ++ call' :: after } aim := by
  obtain ⟨hmem, hcall⟩ := h.call hcalls
  obtain ⟨-, rfl, rfl⟩ | ⟨sha, records, x, hmade, hcreated, rfl, rfl⟩ := record_ok hrecord
  · refine h.keeps_site
      (h.replaces hcalls ⟨hcall.holds, hcall.workspace, hcall.identity, hcall.made, ?_⟩)
    intro hpoint
    cases hpoint
  · have hholds : aim.Holds s.landed { call.delivery with commitSha := some sha } := by
      refine ⟨hcall.holds.intended, fun sha' hsha' => ?_, hcall.holds.attached⟩
      exact Option.some.inj hsha' ▸ hcall.made sha hmade
    refine h.stores (created_stores (h.runId hmem) hcreated) hholds (h.replaces hcalls
      ⟨hholds, hcall.workspace, hcall.identity, hcall.made, ?_⟩)
    intro hpoint
    cases hpoint

theorem move_ok {call call' : Call} {site site' : Site}
    (h : move call site = .ok (call', site')) : ∃ sha worktree,
      call.delivery.commitSha = some sha ∧
      GitDeliveryService.attach site.worktree call.workspace sha call.caller.validated =
        .ok worktree ∧
      call' = { call with point := .moved } ∧ site' = { site with worktree } := by
  unfold move at h
  cases hsha : call.delivery.commitSha with
  | none =>
    rw [hsha] at h
    cases h
  | some sha =>
    rw [hsha] at h
    obtain ⟨worktree, hattach, h⟩ := bind_eq_ok.mp h
    cases h
    exact ⟨sha, worktree, rfl, hattach, rfl, rfl⟩

theorem Settled.moves (h : Settled s aim) {before after : List Call} {call call' : Call}
    {site : Site} {sha : String} (hcalls : s.calls = before ++ call :: after)
    (hmove : move call s.site = .ok (call', site)) (hsha : call.delivery.commitSha = some sha) :
    Settled { s with site, calls := before ++ call' :: after, landed := sha :: s.landed }
      aim := by
  obtain ⟨-, hcall⟩ := h.call hcalls
  obtain ⟨sha', worktree, -, -, rfl, rfl⟩ := move_ok hmove
  obtain rfl : sha = aim.sha := hcall.holds.sha sha hsha
  have hsub : s.landed ⊆ aim.sha :: s.landed := List.subset_cons_self _ _
  obtain ⟨delivery, hstored, hholds⟩ := h.stored
  refine ⟨⟨delivery, hstored, hholds.mono hsub⟩, h.workspace, h.identity, fun x hx => ?_,
    fun sha hsha => ?_, h.sent⟩
  · rcases List.mem_append.mp hx with hx | hx
    · exact (h.calls x (hcalls ▸ List.mem_append_left _ hx)).mono hsub
    · rcases List.mem_cons.mp hx with rfl | hx
      · exact ⟨hcall.holds.mono hsub, hcall.workspace, hcall.identity, hcall.made,
          fun _ => List.mem_cons_self ..⟩
      · exact (h.calls x (hcalls ▸ List.mem_append_right _ (List.mem_cons_of_mem _ hx))).mono hsub
  · rcases List.mem_cons.mp hsha with rfl | hsha
    · rfl
    · exact h.landed sha hsha

theorem Settled.finishes (h : Settled s aim) {before after : List Call} {call : Call}
    {delivery : GitDelivery} {site : Site} (hcalls : s.calls = before ++ call :: after)
    (hpoint : call.point = .moved) (hfinish : finish P call s.site = .ok (delivery, site)) :
    Settled { s with site, calls := before ++ after } aim := by
  obtain ⟨hmem, hcall⟩ := h.call hcalls
  obtain ⟨⟨x, records⟩, hattach, hfinish⟩ := bind_eq_ok.mp hfinish
  cases hfinish
  exact h.stores (attach_stores (h.runId hmem) (transact_ok.mp hattach))
    ⟨hcall.holds.intended, hcall.holds.sha, fun _ => hcall.moved hpoint⟩ (h.drops hcalls)

theorem Settled.checks (h : Settled s aim) {c : Caller} {call : Call} {site : Site}
    (hcheck : check project c s.site = .ok (call, site)) :
    Settled { s with site, calls := call :: s.calls } aim := by
  obtain ⟨⟨delivery, records⟩, hdelivery, hcheck⟩ := bind_eq_ok.mp hcheck
  obtain ⟨workspace, hworkspace, hcheck⟩ := bind_eq_ok.mp hcheck
  cases hcheck
  obtain ⟨stored, hstored, hholds⟩ := h.stored
  obtain rfl : delivery = stored :=
    Option.some.inj (Except.ok.inj ((checkPush_ok (transact_ok.mp hdelivery)).1.symm.trans hstored))
  refine h.keeps_site fun x hx => ?_
  rcases List.mem_cons.mp hx with rfl | hx
  · refine ⟨hholds, ?_, fun e he => ?_, fun sha hsha => ?_, fun hpoint => ?_⟩
    · exact Option.some.inj
        (Except.ok.inj ((workspaceOf_ok.mp hworkspace).symm.trans h.workspace))
    · cases he
    · cases hsha
    · cases hpoint
  · exact h.calls x hx

theorem send_ok {call : Call} {reached : Except Error Unit} {site : Site} {sha : String}
    (h : send call reached site = .ok sha) : call.delivery.commitSha = some sha := by
  unfold send at h
  cases hsha : call.delivery.commitSha with
  | none =>
    rw [hsha] at h
    cases h
  | some sha' =>
    rw [hsha] at h
    obtain ⟨-, h⟩ := ite_error_eq_ok.mp h
    obtain ⟨x, -, h⟩ := bind_eq_ok.mp h
    obtain ⟨-, h⟩ := ite_error_eq_ok.mp h
    obtain ⟨x, -, h⟩ := bind_eq_ok.mp h
    cases h
    rfl

theorem Settled.sends (h : Settled s aim) {before after : List Call} {call : Call}
    {reached : Except Error Unit} {sha : String} (hcalls : s.calls = before ++ call :: after)
    (hsend : send call reached s.site = .ok sha) :
    Settled { s with calls := before ++ { call with point := .sent } :: after,
                     sent := sha :: s.sent } aim := by
  obtain ⟨-, hcall⟩ := h.call hcalls
  refine ⟨h.stored, h.workspace, h.identity, h.replaces hcalls ⟨hcall.holds, hcall.workspace,
    hcall.identity, hcall.made, fun hpoint => ?_⟩, h.landed, fun sha' hsha' => ?_⟩
  · cases hpoint
  · rcases List.mem_cons.mp hsha' with rfl | hsha'
    · exact hcall.holds.sha sha' (send_ok hsend)
    · exact h.sent sha' hsha'

theorem Settled.acknowledges (h : Settled s aim) {before after : List Call} {call : Call}
    {delivery : GitDelivery} {site : Site} (hcalls : s.calls = before ++ call :: after)
    (hacknowledge : acknowledge P call s.site = .ok (delivery, site)) :
    Settled { s with site, calls := before ++ after } aim := by
  obtain ⟨hmem, hcall⟩ := h.call hcalls
  obtain ⟨⟨x, records⟩, hpushed, hacknowledge⟩ := bind_eq_ok.mp hacknowledge
  cases hacknowledge
  exact h.stores (pushed_stores (h.runId hmem) (transact_ok.mp hpushed))
    ⟨hcall.holds.intended, hcall.holds.sha, hcall.holds.attached⟩ (h.drops hcalls)

theorem Settled.aside (h : Settled s aim) {cmd : Command} {records : Records}
    (hcmd : besides cmd = true) (hleads : cmd.Leads P project s.site.records records) :
    Settled { s with site := { s.site with records } } aim := by
  obtain ⟨delivery, hstored, hholds⟩ := h.stored
  exact ⟨⟨delivery, (aside_delivery hcmd hleads).trans hstored, hholds⟩,
    aside_workspace h.workspace hleads, byKey_of_grown hleads.frame.grown h.identity, h.calls,
    h.landed, h.sent⟩

/-- A settled delivery stays settled, whatever happens to it. -/
theorem Settled.turn (haim : aim.Sound I G) (h : Settled s aim)
    (hturn : Turn P I G project T s s') : Settled s' aim := by
  cases hturn with
  | aside hcmd _ hleads => exact h.aside hcmd hleads
  | touched => exact h.keeps h.calls
  | stopped hcalls => exact h.keeps_site (h.drops hcalls)
  | intends c hintend => exact h.intends hintend
  | certifies hcalls _ hcertify => exact h.certifies hcalls hcertify
  | creates hcalls _ hcreate => exact h.creates haim hcalls hcreate
  | records hcalls _ hrecord => exact h.records hcalls hrecord
  | moves hcalls _ hmove hsha => exact h.moves hcalls hmove hsha
  | finishes hcalls hpoint hfinish => exact h.finishes hcalls hpoint hfinish
  | checks c hcheck => exact h.checks hcheck
  | sends hcalls _ _ hsend => exact h.sends hcalls hsend
  | acknowledges hcalls _ hacknowledge => exact h.acknowledges hcalls hacknowledge

theorem Pristine.aside (h : Pristine s) {cmd : Command} {records : Records}
    (hcmd : besides cmd = true)
    (hkeys : ∀ key ∈ ownKeys s.site.records.run.id,
      s.site.records.byKey key = none → records.byKey key = none)
    (hleads : cmd.Leads P project s.site.records records) :
    Pristine { s with site := { s.site with records } } :=
  ⟨(aside_delivery hcmd hleads).trans h.delivery, hkeys _ List.mem_cons_self h.identity, h.calls,
    h.landed, h.sent⟩

/-- No call of a pristine delivery is under way. -/
theorem Pristine.no_call (h : Pristine s) {before after : List Call} {call : Call} :
    s.calls ≠ before ++ call :: after := by
  rw [h.calls]
  simp

/-- A pristine delivery has nothing to push. -/
theorem Pristine.no_check (h : Pristine s) {c : Caller} {call : Call} {site : Site} :
    check project c s.site ≠ .ok (call, site) := by
  intro hcheck
  obtain ⟨⟨delivery, records⟩, hdelivery, -⟩ := bind_eq_ok.mp hcheck
  have hstored := (checkPush_ok (transact_ok.mp hdelivery)).1
  rw [h.delivery] at hstored
  cases hstored

/-- A pristine delivery stays pristine or is settled. -/
theorem Pristine.turn (h : Pristine s) (hturn : Turn P I G project T s s') :
    Pristine s' ∨ ∃ aim : Aim, aim.Sound I G ∧ Settled s' aim := by
  cases hturn with
  | aside hcmd hkeys hleads => exact .inl (h.aside hcmd hkeys hleads)
  | touched => exact .inl ⟨h.delivery, h.identity, h.calls, h.landed, h.sent⟩
  | intends c hintend => exact .inr (intend_first h hintend)
  | checks c hcheck => exact absurd hcheck h.no_check
  | stopped hcalls | certifies hcalls | creates hcalls | records hcalls | moves hcalls
  | finishes hcalls | sends hcalls | acknowledges hcalls => exact absurd hcalls h.no_call

theorem Settled.sole (haim : aim.Sound I G) (h : Settled s aim) :
    Sole I G s aim.intended aim.sha := by
  obtain ⟨delivery, hstored, hholds⟩ := h.stored
  obtain ⟨name, email, hname, hemail, -, -, hsha⟩ := haim.named
  obtain ⟨report, worktree, validated, tree, worktree', hstage, htree, hhash⟩ := haim.staged
  refine ⟨⟨delivery, hstored, hholds.intended, hholds.sha, hholds.attached⟩,
    ⟨aim.identity, name, email, h.identity, hname, hemail, ?_⟩,
    ⟨report, worktree, aim.workspace, validated, tree, worktree', hstage, htree, hhash, haim.base⟩,
    h.landed, h.sent⟩
  rw [haim.base]
  exact hsha

/-- A call that runs to its end at once is a run. -/
theorem turns_of_commit {c : Caller} {delivery : GitDelivery} {site : Site}
    (h : commit P I G project c s.site = .ok (delivery, site)) : ∃ sha,
      delivery.commitSha = some sha ∧ Relation.ReflTransGen (Turn P I G project T) s
        { s with site, landed := sha :: s.landed } := by
  obtain ⟨⟨call₁, site₁⟩, hintend, h⟩ := bind_eq_ok.mp h
  obtain ⟨⟨call₂, site₂⟩, hcertify, h⟩ := bind_eq_ok.mp h
  obtain ⟨⟨call₃, site₃⟩, hcreate, h⟩ := bind_eq_ok.mp h
  obtain ⟨⟨call₄, site₄⟩, hrecord, h⟩ := bind_eq_ok.mp h
  obtain ⟨⟨call₅, site₅⟩, hmove, hfinish⟩ := bind_eq_ok.mp h
  have hpoint₁ : call₁.point = .intended := by
    obtain ⟨_, _, _, -, -, rfl, -⟩ := intend_ok hintend
    rfl
  have hpoint₂ : call₂.point = .certified := by
    obtain ⟨_, _, rfl, -, -⟩ := certify_ok hcertify
    rfl
  have hpoint₃ : call₃.point = .created := by
    obtain ⟨-, rfl, -⟩ | ⟨-, _, _, _, -, -, rfl, -⟩ := create_ok hcreate
    · rfl
    · rfl
  have hpoint₄ : call₄.point = .recorded := by
    obtain ⟨-, rfl, -⟩ | ⟨_, _, _, -, -, rfl, -⟩ := record_ok hrecord
    · rfl
    · rfl
  obtain ⟨sha, _, hsha, -, hcall₅, -⟩ := move_ok hmove
  have hdelivery : delivery.commitSha = some sha := by
    obtain ⟨_, -, hfinish⟩ := bind_eq_ok.mp hfinish
    cases hfinish
    rw [hcall₅]
    exact hsha
  refine ⟨sha, hdelivery, ?_⟩
  let under (site : Site) (call : Call) : Delivering := { s with site, calls := call :: s.calls }
  have hcons (site : Site) (call : Call) : (under site call).calls = [] ++ call :: s.calls := rfl
  have hfirst : Relation.ReflTransGen (Turn P I G project T) s (under site₁ call₁) :=
    .single (.intends c hintend)
  have hsecond : Turn P I G project T (under site₁ call₁) (under site₂ call₂) :=
    .certifies (hcons _ _) hpoint₁ hcertify
  have hthird : Turn P I G project T (under site₂ call₂) (under site₃ call₃) :=
    .creates (hcons _ _) hpoint₂ hcreate
  have hfourth : Turn P I G project T (under site₃ call₃) (under site₄ call₄) :=
    .records (hcons _ _) hpoint₃ hrecord
  have hfifth : Turn P I G project T (under site₄ call₄)
      { under site₅ call₅ with landed := sha :: s.landed } :=
    .moves (hcons _ _) hpoint₄ hmove hsha
  have hlast : Turn P I G project T { under site₅ call₅ with landed := sha :: s.landed }
      { s with site, landed := sha :: s.landed } :=
    .finishes (show _ = [] ++ call₅ :: s.calls from rfl) (by rw [hcall₅]) hfinish
  exact ((((hfirst.tail hsecond).tail hthird).tail hfourth).tail hfifth).tail hlast

end Sole

/-! ### A delivery that is committed -/

namespace Sample

open Orqalis.Sample

/-- Git and the inspection, as far as one commit needs them. -/
def naming : Naming where
  tree _ := "gittree"
  commit object := if object.parent = "c0ffee" then "decaf" else "c0ffee"

def finalInspector : Inspector := { deliveryInspector with digest := fun _ _ => "final" }

/-- An inspection of the edited file. -/
def editInspection (tree : String) : GuardianService.Inspection :=
  { inspection tree with changes := (deliveryInspection edited).changes }

/-- The commands that lead to the commit. -/
def preparing : List Command :=
  finishing.take 20 ++
    .inspect (startedActor "guard") delivery digest .implementation (editInspection "tree")
      100 20 ::
    (finishing.drop 21).take 8 ++
    .inspect (startedActor "guard") delivery digest .final (editInspection "final") 100 29 ::
    (finishing.drop 30).take 3

/-- A run with the worktree of its edit. -/
def siteOf (records : Records) : Site := { records, worktree := { edited with root := "/w" } }

/-- Who commits it. -/
def caller : Caller where
  policy := delivery
  actorId := startedActor "git"
  name := "n"
  email := "e"
  validated := .ok ()
  begun := 33
  ended := 34
  named := by decide

/-- Nothing of the delivery is stored, its worktree is as the last final inspection has it, and its
commit runs to its end. After a first step, a second one of the same caller is let in. -/
theorem preparing_commits : ((history primitives Orqalis.Sample.project preparing made).any fun r =>
    (r.delivery = .ok none ∧ r.byKey "git:identity" = none ∧
      (commit primitives finalInspector naming Orqalis.Sample.project caller
        (siteOf r)).toBool) ∧
    r.byKey (commitKey r.run.id) = none ∧
    (r.workspace.toOption.join.any fun workspace =>
      (r.guardians.toOption.bind (lastReport .final)).any fun report =>
        report.passed = true ∧
          report.changes.map (fun c => (c.path, c.status)) = [("b.txt", "modified")] ∧
          (workspaceDigest finalInspector workspace.baseCommit
            ((siteOf r).worktree.checkout workspace)).toOption = some report.treeHash) ∧
    (intend primitives finalInspector naming Orqalis.Sample.project caller
        (siteOf r)).toOption.any fun begun =>
      begun.2.records.byKey (commitKey begun.2.records.run.id) = none ∧
        (begin' primitives (some Orqalis.Sample.project) caller.policy caller.actorId caller.name
          caller.email (.ok "gittree") caller.begun begun.2.records).toOption.isSome) = true := by
  decide +kernel

theorem commits : ∃ r delivery site, Pristine { site := siteOf r } ∧
    commit primitives finalInspector naming Orqalis.Sample.project caller (siteOf r) =
      .ok (delivery, site) := by
  obtain ⟨r, -, h⟩ := Option.any_eq_true _ _ |>.mp preparing_commits
  simp only [decide_eq_true_eq, Bool.decide_and, Bool.and_eq_true] at h
  obtain ⟨⟨hdelivery, hidentity, hcommit⟩, -⟩ := h
  cases hresult : commit primitives finalInspector naming Orqalis.Sample.project caller
      (siteOf r) with
  | error e =>
    rw [hresult] at hcommit
    cases hcommit
  | ok result => exact ⟨r, result.1, result.2, ⟨hdelivery, hidentity, rfl, rfl, rfl⟩, hresult⟩

end Sample

end CommitService

end Orqalis
