import Mathlib.Data.List.Nodup
import Mathlib.Logic.Function.Basic
import Mathlib.Logic.Relation
import Orqalis.Domain.Base

/-!
# Sandboxes and their receipts

The commands of a run that run in containers, and the receipts of these in the run's directory.
A command writes its receipt, then has its container made, then started, and at its end removed,
and only then takes the receipt away; a controller that starts afresh goes through the receipts
that it finds.

Every call of a daemon is on its way before it takes effect, may be lost, and may take effect
long after its caller has given up or is gone. What a daemon tells of its containers is so at
that moment. The commands of a run and the reconciliation of its receipts run under the lease of
the run: nobody reconciles while a command of the run is alive, and no command begins meanwhile.
Others may do with their containers what they like, and may stop and remove those of the run.
-/

namespace Orqalis

namespace Sandbox

/-! ## The data -/

structure SandboxReceipt where
  invocationId : UUID
  daemonIdentity : Option String
  runId : UUID
  projectIdentity : String
  workspaceIdentity : String
deriving DecidableEq

/-- The name of the container of an invocation. -/
def nameOf (invocationId : UUID) : String := "orqalis-" ++ invocationId.text

def SandboxReceipt.name (r : SandboxReceipt) : String := nameOf r.invocationId

def SandboxReceipt.labels (r : SandboxReceipt) : List (String × String) :=
  [("io.orqalis.project", r.projectIdentity), ("io.orqalis.workspace", r.workspaceIdentity),
    ("io.orqalis.run", r.runId.text), ("io.orqalis.invocation", r.invocationId.text)]

structure Container where
  id : String
  labels : List (String × String)
  running : Bool

/-- Whether a container is labelled as one of a run. -/
def Container.ofRun (run : UUID) (c : Container) : Prop :=
  c.labels.lookup "io.orqalis.run" = some run.text

/-- Whether the labels of a container are those of a receipt. -/
def Container.owned (c : Container) (r : SandboxReceipt) : Prop :=
  ∀ l ∈ r.labels, c.labels.lookup l.1 = some l.2

/-- A call that is on its way to a daemon. -/
inductive Request
  | create (daemon name : String) (labels : List (String × String))
  | start (daemon name : String)
  | remove (daemon id : String)
deriving DecidableEq

/-- Where a command or a reconciliation is. -/
inductive Phase
  -- `prepare`
  | begun (r : SandboxReceipt)
  | identified (r : SandboxReceipt)
  | locked (r : SandboxReceipt)
  | clear (r : SandboxReceipt)
  | written (r : SandboxReceipt)
  | prepared (r : SandboxReceipt)
  -- `create` and the command
  | creating (r : SandboxReceipt)
  | created (r : SandboxReceipt)
  | running (r : SandboxReceipt)
  -- `reconcile_sandboxes`
  | called
  | scanning
  -- `_remove_owned`
  | asking (r : SandboxReceipt)
  | locating (r : SandboxReceipt)
  | inspecting (r : SandboxReceipt) (id : String)
  | condemned (r : SandboxReceipt) (id : String)
  | removing (r : SandboxReceipt) (id : String)
  | verifying (r : SandboxReceipt)
  | cleared (r : SandboxReceipt)
  -- the receipt goes
  | unlinking (r : SandboxReceipt)
  | unlinked

/-- The commands, by their invocation, and the reconciliation of the run. -/
inductive Actor
  | command (invocationId : UUID)
  | reconcile
deriving DecidableEq

/-- A command or a reconciliation, with the daemon that it talks to, the identity of its
workspace, and the receipts that it still has to go through. -/
structure Job where
  daemon : String
  workspace : String
  todo : List SandboxReceipt
  phase : Phase

/-- What is kept of a run of the system. -/
inductive SandboxEvent
  | begun (invocationId : UUID)
  | wrote (r : SandboxReceipt)
  | creating (invocationId : UUID)
  | starting (invocationId : UUID)
  /-- A daemon told that it has no container of a name. -/
  | absent (daemon name : String)
deriving DecidableEq

structure World where
  /-- The controller that holds the lease of the run. -/
  lease : Option Nat
  jobs : Actor → Option Job
  /-- Who holds the lock of the directory. -/
  lock : Option Actor
  receipts : List SandboxReceipt
  /-- The containers of each daemon, by name. -/
  containers : String → String → Option Container
  pending : List Request
  log : List SandboxEvent

namespace World

/-- A job goes on to a phase. -/
def goes (w : World) (a : Actor) (j : Job) (p : Phase) : World :=
  { w with jobs := Function.update w.jobs a (some { j with phase := p }) }

/-- A job goes on to a phase, and has the lock. -/
def locks (w : World) (a : Actor) (j : Job) (p : Phase) : World :=
  { w.goes a j p with lock := some a }

/-- A job is at its end. -/
def ends (w : World) (a : Actor) : World :=
  { w with
    jobs := Function.update w.jobs a none
    lock := if w.lock = some a then none else w.lock }

/-- The containers of a daemon change under one name. -/
def put (w : World) (daemon name : String) (c : Option Container) : World :=
  { w with
    containers := Function.update w.containers daemon
      (Function.update (w.containers daemon) name c) }

/-- A daemon has no container of an id any more. -/
def purge (w : World) (daemon id : String) : World :=
  { w with
    containers := Function.update w.containers daemon fun n =>
      (w.containers daemon n).filter fun c => c.id ≠ id }

/-- A call is on its way no more. -/
def settle (w : World) (q : Request) : World := { w with pending := w.pending.erase q }

end World

/-! ## The steps -/

/-- The receipt that the owner of a run gives a command. -/
def ownerReceipt (run : UUID) (project : String) (invocationId : UUID) (workspace : String) :
    SandboxReceipt where
  invocationId
  daemonIdentity := none
  runId := run
  projectIdentity := project
  workspaceIdentity := workspace

/-- Where a job goes on to, from what it sees, while nothing else changes. -/
inductive Moves (w : World) : Actor → Job → Phase → Prop
  | identify {i j r} (hp : j.phase = .begun r) :
      Moves w (.command i) j (.identified { r with daemonIdentity := some j.daemon })
  | check {i j r} (hp : j.phase = .locked r) (hempty : w.receipts = []) :
      Moves w (.command i) j (.clear r)
  -- at its end, or whatever goes wrong once it is prepared, a command cleans up
  | cleanup {i j r} (hp : j.phase = .prepared r ∨ j.phase = .creating r ∨ j.phase = .created r ∨
        j.phase = .running r) :
      Moves w (.command i) j (.asking r)
  | confirm {a j r} (hp : j.phase = .asking r) (hsame : r.daemonIdentity = some j.daemon) :
      Moves w a j (.locating r)
  | find {a j r c} (hp : j.phase = .locating r) (hc : w.containers j.daemon r.name = some c) :
      Moves w a j (.inspecting r c.id)
  | inspect {a j r n c} (hp : j.phase = .inspecting r c.id)
      (hc : w.containers j.daemon n = some c) (howned : c.owned r) :
      Moves w a j (.condemned r c.id)
  | clear {j r} (hp : j.phase = .cleared r) : Moves w .reconcile j (.unlinking r)

/-- The phases that a job can end in, by an error or not. -/
def Phase.mayEnd : Actor → Phase → Bool
  | .command _, .prepared _ | .command _, .creating _ | .command _, .created _
  | .command _, .running _ => false
  | _, _ => true

inductive Step (run : UUID) (project : String) : World → World → Prop
  -- the lease of the run
  | acquire {w} (controller : Nat) (hfree : w.lease = none) :
      Step run project w { w with lease := some controller }
  | release {w} (hidle : ∀ a, w.jobs a = none) : Step run project w { w with lease := none }
  | crash {w} :
      Step run project w { w with lease := none, jobs := fun _ => none, lock := none }
  -- commands and reconciliations
  | begin {w} (i : UUID) (daemon workspace : String) (hlease : w.lease ≠ none)
      (hapart : w.jobs .reconcile = none) (hnew : .begun i ∉ w.log) :
      Step run project w
        { w with
          jobs := Function.update w.jobs (.command i)
            (some ⟨daemon, workspace, [], .begun (ownerReceipt run project i workspace)⟩)
          log := .begun i :: w.log }
  | call {w} (daemon workspace : String) (hlease : w.lease ≠ none)
      (hidle : ∀ a, w.jobs a = none) :
      Step run project w
        { w with
          jobs := Function.update w.jobs .reconcile (some ⟨daemon, workspace, [], .called⟩) }
  | move {w a j p} (hj : w.jobs a = some j) (hp : Moves w a j p) : Step run project w (w.goes a j p)
  | ends {w a j} (hj : w.jobs a = some j) (hp : j.phase.mayEnd a) : Step run project w (w.ends a)
  -- the directory
  | lock {w i j r} (hj : w.jobs (.command i) = some j) (hp : j.phase = .identified r)
      (hfree : w.lock = none) : Step run project w (w.locks (.command i) j (.locked r))
  | write {w i j r} (hj : w.jobs (.command i) = some j) (hp : j.phase = .clear r) :
      Step run project w
        { w.goes (.command i) j (.written r) with
          receipts := r :: w.receipts
          log := .wrote r :: w.log }
  | unlock {w i j r} (hj : w.jobs (.command i) = some j) (hp : j.phase = .written r) :
      Step run project w { w.goes (.command i) j (.prepared r) with lock := none }
  | lockAgain {w i j r} (hj : w.jobs (.command i) = some j) (hp : j.phase = .cleared r)
      (hfree : w.lock = none) : Step run project w (w.locks (.command i) j (.unlinking r))
  | scan {w j} (hj : w.jobs .reconcile = some j) (hp : j.phase = .called) (hfree : w.lock = none) :
      Step run project w (w.locks .reconcile { j with todo := w.receipts } .scanning)
  | next {w j r rest} (hj : w.jobs .reconcile = some j)
      (hp : j.phase = .scanning ∨ j.phase = .unlinked) (htodo : j.todo = r :: rest)
      (hrun : r.runId = run ∧ r.projectIdentity = project ∧ r.workspaceIdentity = j.workspace) :
      Step run project w (w.goes .reconcile { j with todo := rest } (.asking r))
  | unlink {w a j r} (hj : w.jobs a = some j) (hp : j.phase = .unlinking r) :
      Step run project w
        { w.goes a j .unlinked with receipts := w.receipts.erase r }
  -- calls of a daemon
  | createCall {w i j r} (hj : w.jobs (.command i) = some j) (hp : j.phase = .prepared r) :
      Step run project w
        { w.goes (.command i) j (.creating r) with
          pending := .create j.daemon r.name r.labels :: w.pending
          log := .creating i :: w.log }
  | startCall {w i j r} (hj : w.jobs (.command i) = some j) (hp : j.phase = .created r) :
      Step run project w
        { w.goes (.command i) j (.running r) with
          pending := .start j.daemon r.name :: w.pending
          log := .starting i :: w.log }
  | removeCall {w a j r id} (hj : w.jobs a = some j) (hp : j.phase = .condemned r id) :
      Step run project w
        { w.goes a j (.removing r id) with pending := .remove j.daemon id :: w.pending }
  | reportAbsent {w a j r} (hj : w.jobs a = some j)
      (hp : j.phase = .locating r ∨ j.phase = .verifying r)
      (hc : w.containers j.daemon r.name = none) :
      Step run project w
        { w.goes a j (.cleared r) with log := .absent j.daemon r.name :: w.log }
  -- what the calls come to, in time for the caller or not
  | create {w daemon name labels} (id : String) (hq : .create daemon name labels ∈ w.pending)
      (hfree : w.containers daemon name = none)
      (hid : ∀ n c, w.containers daemon n = some c → c.id ≠ id) :
      Step run project w
        ((w.settle (.create daemon name labels)).put daemon name (some ⟨id, labels, false⟩))
  | createAnswered {w i j r} (id : String) (hj : w.jobs (.command i) = some j)
      (hp : j.phase = .creating r) (hq : .create j.daemon r.name r.labels ∈ w.pending)
      (hfree : w.containers j.daemon r.name = none)
      (hid : ∀ n c, w.containers j.daemon n = some c → c.id ≠ id) :
      Step run project w
        (((w.settle (.create j.daemon r.name r.labels)).put j.daemon r.name
          (some ⟨id, r.labels, false⟩)).goes (.command i) j (.created r))
  | start {w daemon name c} (hq : .start daemon name ∈ w.pending)
      (hc : w.containers daemon name = some c) :
      Step run project w
        ((w.settle (.start daemon name)).put daemon name (some { c with running := true }))
  | remove {w daemon id} (hq : .remove daemon id ∈ w.pending) :
      Step run project w ((w.settle (.remove daemon id)).purge daemon id)
  | removeAnswered {w a j r id} (hj : w.jobs a = some j) (hp : j.phase = .removing r id)
      (hq : .remove j.daemon id ∈ w.pending) :
      Step run project w
        (((w.settle (.remove j.daemon id)).purge j.daemon id).goes a j (.verifying r))
  | lost {w q} : Step run project w (w.settle q)
  -- what else becomes of containers
  | stop {w daemon name c} (hc : w.containers daemon name = some c) :
      Step run project w (w.put daemon name (some { c with running := false }))
  | gone {w daemon name} : Step run project w (w.put daemon name none)
  | other {w daemon name c} (hc : ¬ c.ofRun run) : Step run project w (w.put daemon name (some c))

/-! ## What holds of a run -/

/-- Nothing of the run has happened, and no container is labelled as one of it. -/
structure Initial (run : UUID) (w : World) : Prop where
  jobs : ∀ a, w.jobs a = none
  receipts : w.receipts = []
  pending : w.pending = []
  log : w.log = []
  containers : ∀ daemon name c, w.containers daemon name = some c → ¬ c.ofRun run

/-- After a receipt was written, the daemon that it names told that it has no container of its
name. -/
def Reported (r : SandboxReceipt) (log : List SandboxEvent) : Prop :=
  ∃ daemon later earlier, r.daemonIdentity = some daemon ∧
    log = later ++ .absent daemon r.name :: earlier ∧ .wrote r ∈ earlier

/-- What runs is on record. -/
structure Recorded (run : UUID) (project : String) (w : World) : Prop where
  covered : ∀ daemon name c, w.containers daemon name = some c → c.ofRun run → c.running = true →
    ∃ r ∈ w.receipts, r.name = name
  single : w.receipts.length ≤ 1
  reported : ∀ w', Step run project w w' → ∀ r ∈ w.receipts, r ∉ w'.receipts → Reported r w.log

/-! ## The phases -/

/-- The receipt that a job has in hand. -/
def Phase.receipt? : Phase → Option SandboxReceipt
  | begun r | identified r | locked r | clear r | written r | prepared r | creating r | created r
  | running r | asking r | locating r | inspecting r _ | condemned r _ | removing r _ | verifying r
  | cleared r | unlinking r => some r
  | called | scanning | unlinked => none

/-- The receipt whose file a job relies on. -/
def Phase.recorded? : Phase → Option SandboxReceipt
  | written r | prepared r | creating r | created r | running r | asking r | locating r
  | inspecting r _ | condemned r _ | removing r _ | verifying r | cleared r | unlinking r => some r
  | _ => none

/-- The receipt that names the daemon of a job. -/
def Phase.confirmed? : Phase → Option SandboxReceipt
  | identified r | locked r | clear r | written r | prepared r | locating r | inspecting r _
  | condemned r _ | removing r _ | verifying r => some r
  | _ => none

/-- The receipt whose container a job was told not to be there. -/
def Phase.cleared? : Phase → Option SandboxReceipt
  | cleared r | unlinking r => some r
  | _ => none

/-- The receipt of a command that is being prepared. -/
def Phase.preparing? : Phase → Option SandboxReceipt
  | begun r | identified r | locked r | clear r | written r | prepared r => some r
  | _ => none

/-- The receipt whose container a job is about to remove. -/
def Phase.removing? : Phase → Option SandboxReceipt
  | asking r | locating r | inspecting r _ | condemned r _ | removing r _ | verifying r => some r
  | _ => none

/-- Whether a job holds the lock of the directory. -/
def Phase.holds : Actor → Phase → Bool
  | _, locked _ | _, clear _ | _, written _ | _, unlinking _ | _, unlinked => true
  | .command _, _ => false
  | .reconcile, called => false
  | .reconcile, _ => true

/-- Whether a command has not had its container made yet. -/
def Phase.uncreated : Phase → Bool
  | begun _ | identified _ | locked _ | clear _ | written _ | prepared _ => true
  | _ => false

/-- Whether a command may still have its container started. -/
def Phase.startable : Phase → Bool
  | begun _ | identified _ | locked _ | clear _ | written _ | prepared _ | creating _
  | created _ => true
  | _ => false

/-- The receipts whose files a job relies on. -/
def Job.files (j : Job) : List SandboxReceipt := j.phase.recorded?.toList ++ j.todo

theorem nameOf_injective : Function.Injective nameOf := by
  intro i i' h
  have hlist := congrArg String.toList h
  unfold nameOf at hlist
  rw [String.toList_append, String.toList_append] at hlist
  exact UUID.text_injective (String.toList_injective (List.append_cancel_left hlist))

/-! ## The invariant -/

/-- What a job has to do with the rest. -/
structure Fits (run : UUID) (w : World) (a : Actor) (j : Job) : Prop where
  locked : j.phase.holds a = true → w.lock = some a
  files : j.files.Sublist w.receipts
  clear : ∀ r, j.phase = .clear r → w.receipts = []
  own : ∀ i, a = .command i →
    .begun i ∈ w.log ∧ j.todo = [] ∧ ∀ r, j.phase.receipt? = some r → r.invocationId = i
  confirmed : ∀ r, j.phase.confirmed? = some r → r.daemonIdentity = some j.daemon
  uncreated : ∀ i, a = .command i → j.phase.uncreated = true → .creating i ∉ w.log
  startable : ∀ i, a = .command i → j.phase.startable = true → .starting i ∉ w.log
  answered : ∀ i r, a = .command i → j.phase = .created r →
    ∀ daemon labels, .create daemon (nameOf i) labels ∉ w.pending
  quiet : ∀ r, j.phase.cleared? = some r → Reported r w.log ∧
    ∀ daemon c, w.containers daemon r.name = some c → c.ofRun run →
      .starting r.invocationId ∉ w.log

/-- Whether a call is one that makes a container of a name. -/
def Request.creates (name : String) : Request → Bool
  | create _ n _ => n = name
  | _ => false

/-- What the receipts, the containers and the calls have to do with each other. A container
whose start was called for is on record, and a container is made once. -/
structure Books (run : UUID) (w : World) : Prop where
  single : w.receipts.length ≤ 1
  wrote : ∀ r ∈ w.receipts, .wrote r ∈ w.log
  begun : ∀ i, .creating i ∈ w.log ∨ .starting i ∈ w.log → .begun i ∈ w.log
  creates : ∀ daemon name labels, .create daemon name labels ∈ w.pending →
    ∃ i, name = nameOf i ∧ .creating i ∈ w.log ∧ .starting i ∉ w.log
  once : ∀ name, w.pending.countP (Request.creates name) ≤ 1
  starts : ∀ daemon name, .start daemon name ∈ w.pending →
    ∃ i, name = nameOf i ∧ .starting i ∈ w.log
  made : ∀ daemon name c, w.containers daemon name = some c → c.ofRun run →
    ∃ i, name = nameOf i ∧ .creating i ∈ w.log ∧ (c.running = true → .starting i ∈ w.log)
  home : ∀ r ∈ w.receipts, ∀ daemon,
    ((∃ labels, .create daemon r.name labels ∈ w.pending) ∨
      ∃ c, w.containers daemon r.name = some c ∧ c.ofRun run) → r.daemonIdentity = some daemon
  covered : ∀ daemon i c, w.containers daemon (nameOf i) = some c → c.ofRun run →
    .starting i ∈ w.log → ∃ r ∈ w.receipts, r.invocationId = i

structure Inv (run : UUID) (w : World) : Prop where
  jobs : ∀ a j, w.jobs a = some j → Fits run w a j
  apart : w.jobs .reconcile = none ∨ ∀ i, w.jobs (.command i) = none
  books : Books run w

/-- No container of the run is made or started, and none is called for. -/
structure Quiet (run : UUID) (w w' : World) : Prop where
  log : w.log <:+ w'.log
  calls : ∀ i, (.creating i ∈ w'.log → .creating i ∈ w.log) ∧
    (.starting i ∈ w'.log → .starting i ∈ w.log)
  creates : ∀ daemon name labels, .create daemon name labels ∈ w'.pending →
    .create daemon name labels ∈ w.pending
  once : ∀ name, w'.pending.countP (Request.creates name) ≤
    w.pending.countP (Request.creates name)
  starts : ∀ daemon name, .start daemon name ∈ w'.pending → .start daemon name ∈ w.pending
  containers : ∀ daemon name c, w'.containers daemon name = some c → c.ofRun run →
    ∃ c', w.containers daemon name = some c' ∧ c'.ofRun run ∧
      (c.running = true → c'.running = true)

variable {run : UUID} {project : String} {w w' : World} {a : Actor} {j : Job} {p : Phase}

theorem receipt?_of_recorded? {r : SandboxReceipt} (h : p.recorded? = some r) :
    p.receipt? = some r := by
  cases p <;> first | exact h | cases h

theorem recorded?_of_cleared? {r : SandboxReceipt} (h : p.cleared? = some r) :
    p.recorded? = some r := by
  cases p <;> first | exact h | cases h

theorem Reported.mono {r : SandboxReceipt} {log log' : List SandboxEvent} (h : Reported r log)
    (hlog : log <:+ log') : Reported r log' := by
  obtain ⟨daemon, later, earlier, hdaemon, rfl, hwrote⟩ := h
  obtain ⟨new, rfl⟩ := hlog
  exact ⟨daemon, new ++ later, earlier, hdaemon, (List.append_assoc ..).symm, hwrote⟩

/-- What a job has to do with the rest stays, where no container of it is called for. -/
theorem Fits.frame (h : Fits run w a j) (hlock : j.phase.holds a = true → w'.lock = some a)
    (hfiles : j.files.Sublist w'.receipts) (hclear : ∀ r, j.phase = .clear r → w'.receipts = [])
    (hlog : w.log <:+ w'.log)
    (hcalls : ∀ i, a = .command i → (.creating i ∈ w'.log → .creating i ∈ w.log) ∧
      (.starting i ∈ w'.log → .starting i ∈ w.log))
    (hcreates : ∀ i, a = .command i → ∀ daemon labels,
      .create daemon (nameOf i) labels ∈ w'.pending → .create daemon (nameOf i) labels ∈ w.pending)
    (hquiet : ∀ r, j.phase.cleared? = some r → ∀ daemon c,
      w'.containers daemon r.name = some c → c.ofRun run → .starting r.invocationId ∈ w'.log →
        .starting r.invocationId ∈ w.log ∧
          ∃ c', w.containers daemon r.name = some c' ∧ c'.ofRun run) :
    Fits run w' a j where
  locked := hlock
  files := hfiles
  clear := hclear
  own i hi := ⟨hlog.subset (h.own i hi).1, (h.own i hi).2⟩
  confirmed := h.confirmed
  uncreated i hi hp hcreating := h.uncreated i hi hp ((hcalls i hi).1 hcreating)
  startable i hi hp hstarting := h.startable i hi hp ((hcalls i hi).2 hstarting)
  answered i r hi hp daemon labels hq := h.answered i r hi hp daemon labels
    (hcreates i hi daemon labels hq)
  quiet r hr := ⟨(h.quiet r hr).1.mono hlog, fun daemon c hc hrun hstarting => by
    obtain ⟨hold, c', hc', hrun'⟩ := hquiet r hr daemon c hc hrun hstarting
    exact (h.quiet r hr).2 daemon c' hc' hrun' hold⟩

theorem Fits.of_quiet (h : Fits run w a j) (hquiet : Quiet run w w')
    (hlock : j.phase.holds a = true → w'.lock = some a) (hreceipts : w'.receipts = w.receipts) :
    Fits run w' a j :=
  h.frame hlock (hreceipts ▸ h.files) (hreceipts ▸ h.clear) hquiet.log
    (fun i _ => hquiet.calls i) (fun _ _ daemon labels => hquiet.creates daemon _ labels)
    fun r _ daemon c hc hrun hstarting => by
      obtain ⟨c', hc', hrun', -⟩ := hquiet.containers daemon r.name c hc hrun
      exact ⟨(hquiet.calls r.invocationId).2 hstarting, c', hc', hrun'⟩

/-- What a job has to do with the rest when it goes on. -/
theorem Fits.goes (h : Fits run w a j) (hholds : p.holds a = true → w.lock = some a)
    (hrecorded : p.recorded? = j.phase.recorded?) (hclear : ∀ r, p = .clear r → w.receipts = [])
    (hreceipt : ∀ r, p.receipt? = some r →
      ∃ r', j.phase.receipt? = some r' ∧ r'.invocationId = r.invocationId)
    (hconfirmed : ∀ r, p.confirmed? = some r → r.daemonIdentity = some j.daemon)
    (huncreated : p.uncreated = true → j.phase.uncreated = true)
    (hstartable : p.startable = true → j.phase.startable = true)
    (hanswered : ∀ i r, a = .command i → p = .created r →
      ∀ daemon labels, .create daemon (nameOf i) labels ∉ w.pending)
    (hquiet : ∀ r, p.cleared? = some r → Reported r w.log ∧
      ∀ daemon c, w.containers daemon r.name = some c → c.ofRun run →
        .starting r.invocationId ∉ w.log) :
    Fits run w a { j with phase := p } where
  locked := hholds
  files := by
    have hfiles := h.files
    unfold Job.files at hfiles ⊢
    rwa [hrecorded]
  clear := hclear
  own i hi := by
    obtain ⟨hbegun, htodo, hown⟩ := h.own i hi
    refine ⟨hbegun, htodo, fun r hr => ?_⟩
    obtain ⟨r', hr', hsame⟩ := hreceipt r hr
    rw [← hsame, hown r' hr']
  confirmed := hconfirmed
  uncreated i hi hp := h.uncreated i hi (huncreated hp)
  startable i hi hp := h.startable i hi (hstartable hp)
  answered := hanswered
  quiet := hquiet

/-- The steps of `prepare`. -/
theorem Fits.prepares {r r' : SandboxReceipt} (h : Fits run w a j)
    (hr : j.phase.preparing? = some r) (hr' : p.preparing? = some r')
    (hsame : r.invocationId = r'.invocationId) (hholds : p.holds a = true → w.lock = some a)
    (hrecorded : p.recorded? = j.phase.recorded?) (hclear : ∀ r, p = .clear r → w.receipts = [])
    (hconfirmed : r'.daemonIdentity = some j.daemon) : Fits run w a { j with phase := p } := by
  have hphase : j.phase.receipt? = some r ∧ j.phase.uncreated = true ∧
      j.phase.startable = true := by
    cases hp : j.phase <;> simp_all [Phase.preparing?, Phase.receipt?, Phase.uncreated,
      Phase.startable]
  have hnext : p.receipt? = some r' ∧ (∀ r, p.confirmed? = some r → r = r') ∧
      p.cleared? = none ∧ ∀ r, p ≠ .created r := by
    cases p <;> simp_all [Phase.preparing?, Phase.receipt?, Phase.confirmed?, Phase.cleared?]
  obtain ⟨hreceipt, huncreated, hstartable⟩ := hphase
  obtain ⟨hreceipt', hconfirmed', hcleared, hcreated⟩ := hnext
  refine h.goes hholds hrecorded hclear (fun k hk => ⟨r, hreceipt, ?_⟩)
    (fun k hk => hconfirmed' k hk ▸ hconfirmed) (fun _ => huncreated) (fun _ => hstartable)
    (fun _ k _ hk => absurd hk (hcreated k)) (fun k hk => ?_)
  · rw [hreceipt'] at hk
    rw [hsame, Option.some.inj hk]
  · rw [hcleared] at hk
    cases hk

/-- The steps of `_remove_owned`. -/
theorem Fits.removes {r : SandboxReceipt} (h : Fits run w a j)
    (hr : j.phase.recorded? = some r) (hr' : p.removing? = some r)
    (hholds : p.holds a = true → w.lock = some a)
    (hconfirmed : p.confirmed? = some r → r.daemonIdentity = some j.daemon) :
    Fits run w a { j with phase := p } := by
  have hnext : p.receipt? = some r ∧ p.recorded? = some r ∧
      (∀ k, p.confirmed? = some k → k = r) ∧ p.cleared? = none ∧ p.uncreated = false ∧
      p.startable = false ∧ (∀ k, p ≠ .clear k) ∧ ∀ k, p ≠ .created k := by
    cases p <;> simp_all [Phase.removing?, Phase.receipt?, Phase.recorded?, Phase.confirmed?,
      Phase.cleared?, Phase.uncreated, Phase.startable]
  obtain ⟨hreceipt, hrecorded, hconfirmed', hcleared, huncreated, hstartable, hclear, hcreated⟩ :=
    hnext
  refine h.goes hholds (hrecorded.trans hr.symm) (fun k hk => absurd hk (hclear k))
    (fun k hk => ⟨r, receipt?_of_recorded? hr, ?_⟩)
    (fun k hk => ?_) (fun hk => ?_) (fun hk => ?_)
    (fun _ k _ hk => absurd hk (hcreated k)) (fun k hk => ?_)
  · rw [hreceipt] at hk
    rw [Option.some.inj hk]
  · obtain rfl := hconfirmed' k hk
    exact hconfirmed hk
  · rw [huncreated] at hk
    cases hk
  · rw [hstartable] at hk
    cases hk
  · rw [hcleared] at hk
    cases hk

/-- From the word of a daemon to the receipt. -/
theorem Fits.unlinks {r : SandboxReceipt} (h : Fits run w a j) (hr : j.phase.recorded? = some r)
    (hlock : w.lock = some a)
    (hquiet : Reported r w.log ∧ ∀ daemon c, w.containers daemon r.name = some c → c.ofRun run →
      .starting r.invocationId ∉ w.log) : Fits run w a { j with phase := .unlinking r } := by
  refine h.goes (fun _ => hlock) hr.symm (by simp) ?_ (by simp [Phase.confirmed?])
    (by simp [Phase.uncreated]) (by simp [Phase.startable]) (by simp) ?_
  · rintro r' ⟨⟩
    exact ⟨r, receipt?_of_recorded? hr, rfl⟩
  · rintro r' ⟨⟩
    exact hquiet

theorem Books.of_quiet (h : Books run w) (hquiet : Quiet run w w')
    (hreceipts : w'.receipts = w.receipts) : Books run w' where
  single := hreceipts ▸ h.single
  wrote r hr := hquiet.log.subset (h.wrote r (hreceipts ▸ hr))
  begun i hi := hquiet.log.subset (h.begun i (hi.imp (hquiet.calls i).1 (hquiet.calls i).2))
  creates daemon name labels hq := by
    obtain ⟨i, hi, hcreating, hstarting⟩ :=
      h.creates daemon name labels (hquiet.creates daemon name labels hq)
    exact ⟨i, hi, hquiet.log.subset hcreating, mt (hquiet.calls i).2 hstarting⟩
  once name := Nat.le_trans (hquiet.once name) (h.once name)
  starts daemon name hq := by
    obtain ⟨i, hi, hstarting⟩ := h.starts daemon name (hquiet.starts daemon name hq)
    exact ⟨i, hi, hquiet.log.subset hstarting⟩
  made daemon name c hc hrun := by
    obtain ⟨c', hc', hrun', hrunning⟩ := hquiet.containers daemon name c hc hrun
    obtain ⟨i, hi, hcreating, hstarting⟩ := h.made daemon name c' hc' hrun'
    exact ⟨i, hi, hquiet.log.subset hcreating, fun hc =>
      hquiet.log.subset (hstarting (hrunning hc))⟩
  home r hr daemon hsome := by
    refine h.home r (hreceipts ▸ hr) daemon (hsome.imp ?_ ?_)
    · rintro ⟨labels, hq⟩
      exact ⟨labels, hquiet.creates daemon _ labels hq⟩
    · rintro ⟨c, hc, hrun⟩
      obtain ⟨c', hc', hrun', -⟩ := hquiet.containers daemon _ c hc hrun
      exact ⟨c', hc', hrun'⟩
  covered daemon i c hc hrun hstarting := by
    obtain ⟨c', hc', hrun', -⟩ := hquiet.containers daemon _ c hc hrun
    obtain ⟨r, hr, hi⟩ := h.covered daemon i c' hc' hrun' ((hquiet.calls i).2 hstarting)
    exact ⟨r, hreceipts ▸ hr, hi⟩

/-! ## The steps keep it -/

/-- Whether an event is the call that makes a container, or the one that starts it. -/
def SandboxEvent.calls : SandboxEvent → Bool
  | creating _ | starting _ => true
  | _ => false

theorem quiet_note {e : SandboxEvent} (he : e.calls = false) (hlog : w'.log = e :: w.log)
    (hpending : w'.pending = w.pending) (hcontainers : w'.containers = w.containers) :
    Quiet run w w' where
  log := ⟨[e], hlog.symm⟩
  calls i := by
    rw [hlog]
    cases e <;> simp_all [SandboxEvent.calls]
  creates daemon name labels hq := hpending ▸ hq
  once name := (congrArg (List.countP _) hpending).le
  starts daemon name hq := hpending ▸ hq
  containers daemon name c hc hrun := ⟨c, hcontainers ▸ hc, hrun, id⟩

theorem quiet_same (hlog : w'.log = w.log) (hpending : w'.pending = w.pending)
    (hcontainers : w'.containers = w.containers) : Quiet run w w' where
  log := hlog ▸ List.suffix_rfl
  calls i := by
    rw [hlog]
    exact ⟨id, id⟩
  creates daemon name labels hq := hpending ▸ hq
  once name := (congrArg (List.countP _) hpending).le
  starts daemon name hq := hpending ▸ hq
  containers daemon name c hc hrun := ⟨c, hcontainers ▸ hc, hrun, id⟩

/-- Containers of the run that go or stop. -/
theorem quiet_containers (hlog : w'.log = w.log) (hpending : w'.pending.Sublist w.pending)
    (hcontainers : ∀ daemon name c, w'.containers daemon name = some c → c.ofRun run →
      ∃ c', w.containers daemon name = some c' ∧ c'.ofRun run ∧
        (c.running = true → c'.running = true)) : Quiet run w w' where
  log := hlog ▸ List.suffix_rfl
  calls i := by
    rw [hlog]
    exact ⟨id, id⟩
  creates daemon name labels hq := hpending.subset hq
  once name := hpending.countP_le
  starts daemon name hq := hpending.subset hq
  containers := hcontainers

theorem Inv.holder (h : Inv run w) {b : Actor} {k : Job} (hj : w.jobs a = some j)
    (hk : w.jobs b = some k) (hholds : j.phase.holds a = true) (hholds' : k.phase.holds b = true) :
    b = a :=
  Option.some.inj (((h.jobs b k hk).locked hholds').symm.trans ((h.jobs a j hj).locked hholds))

theorem Inv.unlocked (h : Inv run w) (hj : w.jobs a = some j) (hfree : w.lock = none) :
    ¬ j.phase.holds a = true := fun hholds => by
  have := (h.jobs a j hj).locked hholds
  rw [hfree] at this
  cases this

/-- Every job keeps its phase. -/
theorem Inv.aside (h : Inv run w) (hquiet : Quiet run w w') (hjobs : w'.jobs = w.jobs)
    (hlock : w'.lock = w.lock) (hreceipts : w'.receipts = w.receipts) : Inv run w' where
  jobs b k hk := by
    rw [hjobs] at hk
    have hfits := h.jobs b k hk
    exact hfits.of_quiet hquiet (fun hholds => hlock.trans (hfits.locked hholds)) hreceipts
  apart := by
    rw [hjobs]
    exact h.apart
  books := h.books.of_quiet hquiet hreceipts

/-- One job goes on, or is another one. -/
theorem Inv.update (h : Inv run w) {j' : Job}
    (hjobs : w'.jobs = Function.update w.jobs a (some j'))
    (hsome : w.jobs a = some j)
    (hself : Fits run w' a j') (hothers : ∀ b k, b ≠ a → w.jobs b = some k → Fits run w' b k)
    (hbooks : Books run w') : Inv run w' where
  jobs b k hk := by
    by_cases hb : b = a
    · subst hb
      rw [hjobs, Function.update_self] at hk
      exact Option.some.inj hk ▸ hself
    · rw [hjobs, Function.update_of_ne hb] at hk
      exact hothers b k hb hk
  apart := by
    rw [hjobs]
    rcases h.apart with hnone | hnone
    · refine .inl ?_
      rwa [Function.update_of_ne]
      rintro rfl
      rw [hnone] at hsome
      cases hsome
    · refine .inr fun i => ?_
      rw [Function.update_of_ne, hnone i]
      rintro rfl
      rw [hnone i] at hsome
      cases hsome
  books := hbooks

/-- One job goes on, and nothing of the run is made, started or written. -/
theorem Inv.goes (h : Inv run w) {j' : Job} (hsome : w.jobs a = some j)
    (hquiet : Quiet run w w') (hjobs : w'.jobs = Function.update w.jobs a (some j'))
    (hlock : ∀ b k, b ≠ a → w.jobs b = some k → k.phase.holds b = true → w'.lock = some b)
    (hreceipts : w'.receipts = w.receipts) (hself : Fits run w' a j') : Inv run w' :=
  h.update hjobs hsome hself
    (fun b k hb hk => (h.jobs b k hk).of_quiet hquiet (hlock b k hb hk) hreceipts)
    (h.books.of_quiet hquiet hreceipts)

/-- A phase that a job moves to. -/
theorem Moves.fits (hp : Moves w a j p) (h : Fits run w a j) :
    Fits run w a { j with phase := p } := by
  cases hp with
  | @identify i j r hp =>
    exact h.prepares (r := r) (by rw [hp]; rfl) rfl rfl (by simp [Phase.holds]) (by rw [hp]; rfl)
      (by simp) rfl
  | @check i j r hp hempty =>
    have hlocked := h.locked (by rw [hp]; rfl)
    exact h.prepares (r := r) (by rw [hp]; rfl) rfl rfl (fun _ => hlocked) (by rw [hp]; rfl)
      (fun _ _ => hempty) (h.confirmed r (by rw [hp]; rfl))
  | @cleanup i j r hp =>
    have hrecorded : j.phase.recorded? = some r := by
      rcases hp with hp | hp | hp | hp <;> rw [hp] <;> rfl
    exact h.removes hrecorded rfl (by simp [Phase.holds]) (by simp [Phase.confirmed?])
  | @confirm a j r hp hsame =>
    exact h.removes (by rw [hp]; rfl) rfl
      (fun hholds => h.locked (by rw [hp]; cases a <;> exact hholds)) fun _ => hsame
  | @find a j r c hp hc =>
    have hconfirmed := h.confirmed r (by rw [hp]; rfl)
    exact h.removes (by rw [hp]; rfl) rfl
      (fun hholds => h.locked (by rw [hp]; cases a <;> exact hholds)) fun _ => hconfirmed
  | @inspect a j r n c hp hc howned =>
    have hconfirmed := h.confirmed r (by rw [hp]; rfl)
    exact h.removes (by rw [hp]; rfl) rfl
      (fun hholds => h.locked (by rw [hp]; cases a <;> exact hholds)) fun _ => hconfirmed
  | @clear j r hp =>
    have hlocked := h.locked (by rw [hp]; rfl)
    have hquiet := h.quiet r (by rw [hp]; rfl)
    exact h.unlinks (by rw [hp]; rfl) hlocked hquiet

/-- The lock is taken by a job that goes on. -/
theorem Inv.locks (h : Inv run w) {j' : Job} (hsome : w.jobs a = some j) (hfree : w.lock = none)
    (hself : Fits run (w.locks a j' p) a { j' with phase := p }) : Inv run (w.locks a j' p) :=
  h.goes hsome (quiet_same rfl rfl rfl) rfl
    (fun _ _ _ hk hholds => absurd hholds (h.unlocked hk hfree)) rfl hself

theorem Inv.begin {i : UUID} {daemon workspace : String} (h : Inv run w)
    (hapart : w.jobs .reconcile = none) (hnew : .begun i ∉ w.log) :
    Inv run { w with
      jobs := Function.update w.jobs (.command i)
        (some ⟨daemon, workspace, [], .begun (ownerReceipt run project i workspace)⟩)
      log := .begun i :: w.log } := by
  have hquiet : Quiet run w { w with
      jobs := Function.update w.jobs (.command i)
        (some ⟨daemon, workspace, [], .begun (ownerReceipt run project i workspace)⟩)
      log := .begun i :: w.log } := quiet_note (e := .begun i) rfl rfl rfl rfl
  refine ⟨fun b k hk => ?_, .inl ?_, h.books.of_quiet hquiet rfl⟩
  · by_cases hb : b = .command i
    · subst hb
      dsimp only at hk
      rw [Function.update_self] at hk
      cases hk
      refine
        { locked := by simp [Phase.holds]
          files := List.nil_sublist _
          clear := by simp
          own := fun i' hi => ?_
          confirmed := by simp [Phase.confirmed?]
          uncreated := fun i' hi _ hcreating => ?_
          startable := fun i' hi _ hstarting => ?_
          answered := by simp
          quiet := by simp [Phase.cleared?] }
      · cases hi
        exact ⟨List.mem_cons_self, rfl, by rintro r ⟨⟩; rfl⟩
      · cases hi
        exact hnew (h.books.begun i (.inl ((hquiet.calls i).1 hcreating)))
      · cases hi
        exact hnew (h.books.begun i (.inr ((hquiet.calls i).2 hstarting)))
    · have hk : w.jobs b = some k := (Function.update_of_ne hb ..).symm.trans hk
      have hfits := h.jobs b k hk
      exact hfits.of_quiet hquiet hfits.locked rfl
  · have hne : Actor.reconcile ≠ .command i := by simp
    dsimp only
    rw [Function.update_of_ne hne, hapart]

theorem Inv.call {daemon workspace : String} (h : Inv run w) (hidle : ∀ a, w.jobs a = none) :
    Inv run { w with
      jobs := Function.update w.jobs .reconcile (some ⟨daemon, workspace, [], .called⟩) } := by
  have hothers : ∀ b, b ≠ .reconcile →
      Function.update w.jobs .reconcile (some ⟨daemon, workspace, [], .called⟩) b = none :=
    fun b hb => (Function.update_of_ne hb ..).trans (hidle b)
  have hcommands : ∀ i, Actor.command i ≠ .reconcile := by simp
  refine ⟨fun b k hk => ?_, .inr fun i => hothers _ (hcommands i), h.books.of_quiet
    (quiet_same rfl rfl rfl) rfl⟩
  dsimp only at hk
  by_cases hb : b = .reconcile
  · subst hb
    rw [Function.update_self] at hk
    cases hk
    exact
      { locked := by simp [Phase.holds]
        files := List.nil_sublist _
        clear := by simp
        own := by simp
        confirmed := by simp [Phase.confirmed?]
        uncreated := by simp
        startable := by simp
        answered := by simp
        quiet := by simp [Phase.cleared?] }
  · rw [hothers b hb] at hk
    cases hk

theorem Inv.ends (h : Inv run w) (hj : w.jobs a = some j) : Inv run (w.ends a) := by
  refine ⟨fun b k hk => ?_, ?_, h.books.of_quiet (quiet_same rfl rfl rfl) rfl⟩
  · by_cases hb : b = a
    · subst hb
      have hnone : (w.ends b).jobs b = none := Function.update_self ..
      rw [hnone] at hk
      cases hk
    · have hk : w.jobs b = some k := (Function.update_of_ne hb ..).symm.trans hk
      have hfits := h.jobs b k hk
      refine hfits.of_quiet (quiet_same rfl rfl rfl) (fun hholds => ?_) rfl
      have hlock := hfits.locked hholds
      have hne : w.lock ≠ some a := fun heq => hb (Option.some.inj (hlock.symm.trans heq))
      exact (if_neg hne).trans hlock
  · have hnone : ∀ b, w.jobs b = none → (w.ends a).jobs b = none := by
      intro b hb
      change Function.update w.jobs a none b = none
      by_cases hba : b = a
      · rw [hba, Function.update_self]
      · rw [Function.update_of_ne hba, hb]
    exact h.apart.imp (hnone _) fun hnone' i => hnone _ (hnone' i)

/-- A job that relies on the file of a receipt is alone with it. -/
theorem Inv.alone {r : SandboxReceipt} (h : Inv run w) (hj : w.jobs a = some j)
    (hr : j.phase.recorded? = some r) :
    w.receipts = [r] ∧ j.todo = [] ∧ ∀ b k, b ≠ a → w.jobs b = some k → k.files = [] := by
  have hfits := h.jobs _ j hj
  have hfiles := hfits.files
  unfold Job.files at hfiles
  rw [hr, Option.toList_some, List.singleton_append] at hfiles
  have hsingle : w.receipts = r :: j.todo :=
    (hfiles.eq_of_length_le (Nat.le_trans h.books.single (Nat.le_add_left ..))).symm
  have htodo : j.todo = [] := by
    have hone := h.books.single
    rw [hsingle, List.length_cons] at hone
    exact List.eq_nil_of_length_eq_zero (by omega)
  rw [htodo] at hsingle
  refine ⟨hsingle, htodo, fun b k hb hk => ?_⟩
  have hfits' := h.jobs _ k hk
  have hfiles' := hfits'.files
  cases a with
  | reconcile =>
    cases b with
    | reconcile => exact absurd rfl hb
    | command i' =>
      rcases h.apart with hnone | hnone
      · rw [hnone] at hj
        cases hj
      · rw [hnone i'] at hk
        cases hk
  | command i =>
    cases b with
    | reconcile =>
      rcases h.apart with hnone | hnone
      · rw [hnone] at hk
        cases hk
      · rw [hnone i] at hj
        cases hj
    | command i' =>
      obtain ⟨-, htodo', hown⟩ := hfits'.own i' rfl
      unfold Job.files at hfiles' ⊢
      rw [htodo', List.append_nil, hsingle] at hfiles'
      rw [htodo', List.append_nil]
      cases hrecorded : k.phase.recorded? with
      | none => rfl
      | some r' =>
        rw [hrecorded] at hfiles'
        have hsame : r' = r := List.mem_singleton.mp (hfiles'.subset List.mem_cons_self)
        refine absurd (congrArg Actor.command ?_) hb
        rw [← hown r' (receipt?_of_recorded? hrecorded), hsame,
          (hfits.own i rfl).2.2 r (receipt?_of_recorded? hr)]

/-- A command writes its receipt into the directory, which it saw empty. -/
theorem Inv.write {i : UUID} {r : SandboxReceipt} (h : Inv run w)
    (hj : w.jobs (.command i) = some j) (hp : j.phase = .clear r)
    (hjobs : w'.jobs = Function.update w.jobs (.command i) (some { j with phase := .written r }))
    (hlock : w'.lock = w.lock) (hreceipts : w'.receipts = r :: w.receipts)
    (hlog : w'.log = .wrote r :: w.log) (hpending : w'.pending = w.pending)
    (hcontainers : w'.containers = w.containers) : Inv run w' := by
  have hfits := h.jobs _ j hj
  have hempty := hfits.clear r hp
  have hholds : j.phase.holds (.command i) = true := by rw [hp]; rfl
  obtain ⟨hbegun, htodo, hown⟩ := hfits.own i rfl
  have hi : r.invocationId = i := hown r (by rw [hp]; rfl)
  have huncreated : .creating i ∉ w.log := hfits.uncreated i rfl (by rw [hp]; rfl)
  have hstartable : .starting i ∉ w.log := hfits.startable i rfl (by rw [hp]; rfl)
  have hquiet : Quiet run w w' := quiet_note rfl hlog hpending hcontainers
  rw [hempty] at hreceipts
  refine h.update hjobs hj ?_ (fun b k hb hk => ?_) ?_
  · exact
      { locked := fun _ => hlock.trans (hfits.locked hholds)
        files := by
          rw [hreceipts]
          unfold Job.files
          rw [htodo]
          exact List.Sublist.refl _
        clear := by simp
        own := by
          rintro i' ⟨⟩
          exact ⟨hquiet.log.subset hbegun, htodo, by rintro r' ⟨⟩; exact hi⟩
        confirmed := by
          rintro r' ⟨⟩
          exact hfits.confirmed r (by rw [hp]; rfl)
        uncreated := by
          rintro i' ⟨⟩ -
          exact mt (hquiet.calls i).1 huncreated
        startable := by
          rintro i' ⟨⟩ -
          exact mt (hquiet.calls i).2 hstartable
        answered := by simp
        quiet := by simp [Phase.cleared?] }
  · -- the others rely on no file, and none of them holds the lock
    have hfits' := h.jobs b k hk
    have hnone : k.files = [] := List.sublist_nil.mp (hempty ▸ hfits'.files)
    refine hfits'.frame (fun hholds' => hlock.trans (hfits'.locked hholds'))
      (hnone ▸ List.nil_sublist _) (fun r' hr' => ?_) hquiet.log (fun i _ => hquiet.calls i)
      (fun _ _ daemon labels => hquiet.creates daemon _ labels)
      fun r' _ daemon c hc hrun hstarting =>
        ⟨(hquiet.calls _).2 hstarting, c, hcontainers ▸ hc, hrun⟩
    exact absurd (h.holder hj hk hholds (by rw [hr']; rfl)) hb
  · have hbooks := h.books
    exact
      { single := by rw [hreceipts]; rfl
        wrote := by
          rw [hreceipts, hlog]
          intro r' hr'
          rw [List.mem_singleton.mp hr']
          exact List.mem_cons_self
        begun := fun i' hi' =>
          hquiet.log.subset (hbooks.begun i' (hi'.imp (hquiet.calls i').1 (hquiet.calls i').2))
        creates := fun daemon name labels hq => by
          obtain ⟨i', hi', hcreating, hstarting⟩ :=
            hbooks.creates daemon name labels (hpending ▸ hq)
          exact ⟨i', hi', hquiet.log.subset hcreating, mt (hquiet.calls i').2 hstarting⟩
        once := hpending ▸ hbooks.once
        starts := fun daemon name hq => by
          obtain ⟨i', hi', hstarting⟩ := hbooks.starts daemon name (hpending ▸ hq)
          exact ⟨i', hi', hquiet.log.subset hstarting⟩
        made := fun daemon name c hc hrun => by
          obtain ⟨i', hi', hcreating, hstarting⟩ :=
            hbooks.made daemon name c (hcontainers ▸ hc) hrun
          exact ⟨i', hi', hquiet.log.subset hcreating, fun hc =>
            hquiet.log.subset (hstarting hc)⟩
        home := fun r' hr' daemon hsome => by
          rw [hreceipts, List.mem_singleton] at hr'
          subst hr'
          rw [hpending, hcontainers] at hsome
          obtain ⟨i', hi', hcreating⟩ : ∃ i', r'.name = nameOf i' ∧ .creating i' ∈ w.log := by
            rcases hsome with ⟨labels, hq⟩ | ⟨c, hc, hrun⟩
            · obtain ⟨i', hi', hcreating, -⟩ := hbooks.creates _ _ _ hq
              exact ⟨i', hi', hcreating⟩
            · obtain ⟨i', hi', hcreating, -⟩ := hbooks.made _ _ c hc hrun
              exact ⟨i', hi', hcreating⟩
          rw [← nameOf_injective hi', hi] at hcreating
          exact absurd hcreating huncreated
        covered := fun daemon i' c hc hrun hstarting => by
          obtain ⟨r', hr', -⟩ := hbooks.covered daemon i' c (hcontainers ▸ hc) hrun
            ((hquiet.calls i').2 hstarting)
          rw [hempty] at hr'
          cases hr' }

/-- A receipt goes once a daemon told that there is nothing of its name. -/
theorem Inv.unlink {r : SandboxReceipt} (h : Inv run w) (hj : w.jobs a = some j)
    (hp : j.phase = .unlinking r)
    (hjobs : w'.jobs = Function.update w.jobs a (some { j with phase := .unlinked }))
    (hlock : w'.lock = w.lock) (hreceipts : w'.receipts = w.receipts.erase r)
    (hlog : w'.log = w.log) (hpending : w'.pending = w.pending)
    (hcontainers : w'.containers = w.containers) : Inv run w' := by
  have hfits := h.jobs _ j hj
  have hholds : j.phase.holds a = true := by rw [hp]; cases a <;> rfl
  obtain ⟨hsingle, htodo, hothers⟩ := h.alone hj (r := r) (by rw [hp]; rfl)
  obtain ⟨-, hnothing⟩ := hfits.quiet r (by rw [hp]; rfl)
  have hquiet : Quiet run w w' := quiet_same hlog hpending hcontainers
  have hempty : w'.receipts = [] := by rw [hreceipts, hsingle, List.erase_cons_head]
  refine h.update hjobs hj ?_ (fun b k hb hk => ?_) ?_
  · exact
      { locked := fun _ => hlock.trans (hfits.locked hholds)
        files := by
          unfold Job.files
          rw [htodo]
          exact List.nil_sublist _
        clear := by simp
        own := by
          rintro i rfl
          exact ⟨hquiet.log.subset (hfits.own i rfl).1, htodo, by simp [Phase.receipt?]⟩
        confirmed := by simp [Phase.confirmed?]
        uncreated := by simp [Phase.uncreated]
        startable := by simp [Phase.startable]
        answered := by simp
        quiet := by simp [Phase.cleared?] }
  · have hfits' := h.jobs b k hk
    exact hfits'.frame (fun hholds' => hlock.trans (hfits'.locked hholds'))
      (hothers b k hb hk ▸ List.nil_sublist _) (fun _ _ => hempty) hquiet.log
      (fun i _ => hquiet.calls i) (fun _ _ daemon labels => hquiet.creates daemon _ labels)
      fun r' _ daemon c hc hrun hstarting =>
        ⟨(hquiet.calls _).2 hstarting, c, hcontainers ▸ hc, hrun⟩
  · have hbooks := h.books
    exact
      { single := by rw [hempty]; exact Nat.zero_le _
        wrote := by simp [hempty]
        begun := hlog ▸ hbooks.begun
        creates := by rw [hlog, hpending]; exact hbooks.creates
        once := hpending ▸ hbooks.once
        starts := by rw [hlog, hpending]; exact hbooks.starts
        made := by rw [hlog, hcontainers]; exact hbooks.made
        home := by simp [hempty]
        covered := fun daemon i c hc hrun hstarting => by
          rw [hcontainers] at hc
          rw [hlog] at hstarting
          obtain ⟨r', hr', rfl⟩ := hbooks.covered daemon i c hc hrun hstarting
          rw [hsingle, List.mem_singleton] at hr'
          subst hr'
          exact absurd hstarting (hnothing daemon c hc hrun) }

/-- The container of a command is called for once. -/
theorem Inv.createCall {i : UUID} {r : SandboxReceipt} (h : Inv run w)
    (hj : w.jobs (.command i) = some j) (hp : j.phase = .prepared r)
    (hjobs : w'.jobs = Function.update w.jobs (.command i) (some { j with phase := .creating r }))
    (hlock : w'.lock = w.lock) (hreceipts : w'.receipts = w.receipts)
    (hlog : w'.log = .creating i :: w.log)
    (hpending : w'.pending = .create j.daemon r.name r.labels :: w.pending)
    (hcontainers : w'.containers = w.containers) : Inv run w' := by
  have hfits := h.jobs _ j hj
  have hbooks := h.books
  obtain ⟨hbegun, htodo, hown⟩ := hfits.own i rfl
  have hi : r.invocationId = i := hown r (by rw [hp]; rfl)
  obtain ⟨hsingle, -, -⟩ := h.alone hj (r := r) (by rw [hp]; rfl)
  have huncreated : .creating i ∉ w.log := hfits.uncreated i rfl (by rw [hp]; rfl)
  have hstartable : .starting i ∉ w.log := hfits.startable i rfl (by rw [hp]; rfl)
  have hdaemon := hfits.confirmed r (by rw [hp]; rfl)
  have hgrows : w.log <:+ w'.log := ⟨[.creating i], hlog.symm⟩
  have hstarting : ∀ i', .starting i' ∈ w'.log → .starting i' ∈ w.log := by
    intro i' hi'
    rw [hlog] at hi'
    exact (List.mem_cons.mp hi').resolve_left (by simp)
  have hcreating : ∀ i', .creating i' ∈ w'.log → i' = i ∨ .creating i' ∈ w.log := by
    intro i' hi'
    rw [hlog] at hi'
    exact (List.mem_cons.mp hi').imp_left SandboxEvent.creating.inj
  -- no call for a container of the name was there before
  have hnew : ∀ daemon labels, .create daemon r.name labels ∉ w.pending := by
    intro daemon labels hq
    obtain ⟨i', hi', hcreating', -⟩ := hbooks.creates _ _ _ hq
    rw [← nameOf_injective hi', hi] at hcreating'
    exact huncreated hcreating'
  have hcreates : ∀ daemon name labels, .create daemon name labels ∈ w'.pending →
      daemon = j.daemon ∧ name = r.name ∨ .create daemon name labels ∈ w.pending := by
    intro daemon name labels hq
    rw [hpending] at hq
    refine (List.mem_cons.mp hq).imp_left fun heq => ?_
    cases heq
    exact ⟨rfl, rfl⟩
  refine h.update hjobs hj ?_ (fun b k hb hk => ?_) ?_
  · exact
      { locked := by simp [Phase.holds]
        files := by
          have hfiles := hfits.files
          unfold Job.files at hfiles ⊢
          rw [hp] at hfiles
          rw [hreceipts]
          exact hfiles
        clear := by simp
        own := by
          rintro i' ⟨⟩
          exact ⟨hgrows.subset hbegun, htodo, by rintro r' ⟨⟩; exact hi⟩
        confirmed := by simp [Phase.confirmed?]
        uncreated := by simp [Phase.uncreated]
        startable := by
          rintro i' ⟨⟩ -
          exact mt (hstarting i) hstartable
        answered := by simp
        quiet := by simp [Phase.cleared?] }
  · have hfits' := h.jobs b k hk
    refine hfits'.frame (fun hholds => hlock.trans (hfits'.locked hholds))
      (hreceipts ▸ hfits'.files) (hreceipts ▸ hfits'.clear) hgrows
      (fun i' hi' => ⟨fun hc => ?_, hstarting i'⟩)
      (fun i' hi' daemon labels hq => ?_)
      fun r' _ daemon c hc hrun hs => ⟨hstarting _ hs, c, hcontainers ▸ hc, hrun⟩
    · refine (hcreating i' hc).resolve_left fun heq => hb ?_
      rw [hi', heq]
    · refine (hcreates _ _ _ hq).resolve_left fun heq => hb ?_
      rw [hi', nameOf_injective (heq.2.trans (congrArg nameOf hi))]
  · exact
      { single := hreceipts ▸ hbooks.single
        wrote := fun r' hr' => hgrows.subset (hbooks.wrote r' (hreceipts ▸ hr'))
        begun := fun i' hi' => by
          refine hgrows.subset ?_
          rcases hi' with hi' | hi'
          · rcases hcreating i' hi' with rfl | hold
            · exact hbegun
            · exact hbooks.begun i' (.inl hold)
          · exact hbooks.begun i' (.inr (hstarting i' hi'))
        creates := fun daemon name labels hq => by
          rcases hcreates daemon name labels hq with ⟨-, rfl⟩ | hold
          · refine ⟨i, congrArg nameOf hi, ?_, mt (hstarting i) hstartable⟩
            rw [hlog]
            exact List.mem_cons_self
          · obtain ⟨i', hi', hcreating', hstarting'⟩ := hbooks.creates daemon name labels hold
            exact ⟨i', hi', hgrows.subset hcreating', mt (hstarting i') hstarting'⟩
        once := fun name => by
          rw [hpending]
          by_cases hname : r.name = name
          · have hzero : w.pending.countP (Request.creates name) = 0 := by
              rw [List.countP_eq_zero]
              intro q hq hcreates'
              cases q with
              | create daemon n labels =>
                have hn : n = r.name := (of_decide_eq_true hcreates').trans hname.symm
                exact hnew daemon labels (hn ▸ hq)
              | start => cases hcreates'
              | remove => cases hcreates'
            rw [List.countP_cons, hzero]
            split_ifs <;> omega
          · rw [List.countP_cons_of_neg (by simpa [Request.creates] using hname)]
            exact hbooks.once name
        starts := fun daemon name hq => by
          rw [hpending] at hq
          obtain ⟨i', hi', hs⟩ := hbooks.starts daemon name
            ((List.mem_cons.mp hq).resolve_left (by simp))
          exact ⟨i', hi', hgrows.subset hs⟩
        made := fun daemon name c hc hrun => by
          obtain ⟨i', hi', hc', hs⟩ := hbooks.made daemon name c (hcontainers ▸ hc) hrun
          exact ⟨i', hi', hgrows.subset hc', fun hrunning => hgrows.subset (hs hrunning)⟩
        home := fun r' hr' daemon hsome => by
          rw [hreceipts] at hr'
          rcases hsome with ⟨labels, hq⟩ | ⟨c, hc, hrun⟩
          · rcases hcreates _ _ _ hq with ⟨rfl, -⟩ | hold
            · rw [hsingle, List.mem_singleton] at hr'
              rw [hr', hdaemon]
            · exact hbooks.home r' hr' daemon (.inl ⟨labels, hold⟩)
          · exact hbooks.home r' hr' daemon (.inr ⟨c, hcontainers ▸ hc, hrun⟩)
        covered := fun daemon i' c hc hrun hs => by
          rw [hreceipts]
          exact hbooks.covered daemon i' c (hcontainers ▸ hc) hrun (hstarting i' hs) }

/-- A start is called for where the receipt is on record and no container is to be made. -/
theorem Inv.startCall {i : UUID} {r : SandboxReceipt} (h : Inv run w)
    (hj : w.jobs (.command i) = some j) (hp : j.phase = .created r)
    (hjobs : w'.jobs = Function.update w.jobs (.command i) (some { j with phase := .running r }))
    (hlock : w'.lock = w.lock) (hreceipts : w'.receipts = w.receipts)
    (hlog : w'.log = .starting i :: w.log)
    (hpending : w'.pending = .start j.daemon r.name :: w.pending)
    (hcontainers : w'.containers = w.containers) : Inv run w' := by
  have hfits := h.jobs _ j hj
  have hbooks := h.books
  obtain ⟨hbegun, htodo, hown⟩ := hfits.own i rfl
  have hi : r.invocationId = i := hown r (by rw [hp]; rfl)
  obtain ⟨hsingle, -, hothers⟩ := h.alone hj (r := r) (by rw [hp]; rfl)
  have hanswered := hfits.answered i r rfl hp
  have hgrows : w.log <:+ w'.log := ⟨[.starting i], hlog.symm⟩
  have hcreating : ∀ i', .creating i' ∈ w'.log → .creating i' ∈ w.log := by
    intro i' hi'
    rw [hlog] at hi'
    exact (List.mem_cons.mp hi').resolve_left (by simp)
  have hstarting : ∀ i', .starting i' ∈ w'.log → i' = i ∨ .starting i' ∈ w.log := by
    intro i' hi'
    rw [hlog] at hi'
    exact (List.mem_cons.mp hi').imp_left SandboxEvent.starting.inj
  have hcreates : ∀ daemon name labels, .create daemon name labels ∈ w'.pending →
      .create daemon name labels ∈ w.pending := by
    intro daemon name labels hq
    rw [hpending] at hq
    exact (List.mem_cons.mp hq).resolve_left (by simp)
  refine h.update hjobs hj ?_ (fun b k hb hk => ?_) ?_
  · exact
      { locked := by simp [Phase.holds]
        files := by
          have hfiles := hfits.files
          unfold Job.files at hfiles ⊢
          rw [hp] at hfiles
          rw [hreceipts]
          exact hfiles
        clear := by simp
        own := by
          rintro i' ⟨⟩
          exact ⟨hgrows.subset hbegun, htodo, by rintro r' ⟨⟩; exact hi⟩
        confirmed := by simp [Phase.confirmed?]
        uncreated := by simp [Phase.uncreated]
        startable := by simp [Phase.startable]
        answered := by simp
        quiet := by simp [Phase.cleared?] }
  · have hfits' := h.jobs b k hk
    refine hfits'.frame (fun hholds => hlock.trans (hfits'.locked hholds))
      (hreceipts ▸ hfits'.files) (hreceipts ▸ hfits'.clear) hgrows
      (fun i' hi' => ⟨hcreating i', fun hs => ?_⟩)
      (fun _ _ daemon labels => hcreates daemon _ labels)
      fun r' hr' daemon c hc hrun hs => ⟨?_, c, hcontainers ▸ hc, hrun⟩
    · refine (hstarting i' hs).resolve_left fun heq => hb ?_
      rw [hi', heq]
    · -- nobody else relies on the receipt
      have hnone := hothers b k hb hk
      unfold Job.files at hnone
      rw [recorded?_of_cleared? hr'] at hnone
      cases hnone
  · exact
      { single := hreceipts ▸ hbooks.single
        wrote := fun r' hr' => hgrows.subset (hbooks.wrote r' (hreceipts ▸ hr'))
        begun := fun i' hi' => by
          refine hgrows.subset ?_
          rcases hi' with hi' | hi'
          · exact hbooks.begun i' (.inl (hcreating i' hi'))
          · rcases hstarting i' hi' with rfl | hold
            · exact hbegun
            · exact hbooks.begun i' (.inr hold)
        creates := fun daemon name labels hq => by
          obtain ⟨i', rfl, hc, hs⟩ := hbooks.creates daemon name labels (hcreates _ _ _ hq)
          refine ⟨i', rfl, hgrows.subset hc, fun hs' => ?_⟩
          rcases hstarting i' hs' with rfl | hold
          · exact hanswered daemon labels (hcreates _ _ _ hq)
          · exact hs hold
        once := fun name => by
          rw [hpending, List.countP_cons_of_neg (by simp [Request.creates])]
          exact hbooks.once name
        starts := fun daemon name hq => by
          rw [hpending] at hq
          rcases List.mem_cons.mp hq with heq | hold
          · cases heq
            refine ⟨i, congrArg nameOf hi, ?_⟩
            rw [hlog]
            exact List.mem_cons_self
          · obtain ⟨i', hi', hs⟩ := hbooks.starts daemon name hold
            exact ⟨i', hi', hgrows.subset hs⟩
        made := fun daemon name c hc hrun => by
          obtain ⟨i', hi', hc', hs⟩ := hbooks.made daemon name c (hcontainers ▸ hc) hrun
          exact ⟨i', hi', hgrows.subset hc', fun hrunning => hgrows.subset (hs hrunning)⟩
        home := fun r' hr' daemon hsome => by
          rw [hreceipts] at hr'
          rcases hsome with ⟨labels, hq⟩ | ⟨c, hc, hrun⟩
          · exact hbooks.home r' hr' daemon (.inl ⟨labels, hcreates _ _ _ hq⟩)
          · exact hbooks.home r' hr' daemon (.inr ⟨c, hcontainers ▸ hc, hrun⟩)
        covered := fun daemon i' c hc hrun hs => by
          rw [hreceipts]
          rcases hstarting i' hs with rfl | hold
          · exact ⟨r, hsingle ▸ List.mem_cons_self, hi⟩
          · exact hbooks.covered daemon i' c (hcontainers ▸ hc) hrun hold }

theorem containers_put {daemon name daemon' name' : String} {x : Option Container} :
    (w.put daemon name x).containers daemon' name' =
      if daemon' = daemon ∧ name' = name then x else w.containers daemon' name' := by
  unfold World.put
  by_cases hdaemon : daemon' = daemon
  · subst hdaemon
    simp only [Function.update_self, true_and]
    by_cases hname : name' = name
    · rw [hname, Function.update_self, if_pos rfl]
    · rw [Function.update_of_ne hname, if_neg hname]
  · simp only [Function.update_of_ne hdaemon]
    rw [if_neg fun h => hdaemon h.1]

/-- A container is made, whether its caller is still there or not. -/
theorem Inv.create {daemon name cid : String} {labels : List (String × String)} (h : Inv run w)
    (hq : .create daemon name labels ∈ w.pending) :
    Inv run ((w.settle (.create daemon name labels)).put daemon name
      (some ⟨cid, labels, false⟩)) := by
  obtain ⟨t, ht⟩ : ∃ t, t = (w.settle (.create daemon name labels)).put daemon name
      (some ⟨cid, labels, false⟩) := ⟨_, rfl⟩
  have hlog : t.log = w.log := by rw [ht]; rfl
  have hpending : t.pending = w.pending.erase (.create daemon name labels) := by rw [ht]; rfl
  have hreceipts : t.receipts = w.receipts := by rw [ht]; rfl
  have hlock : t.lock = w.lock := by rw [ht]; rfl
  have hjobs : t.jobs = w.jobs := by rw [ht]; rfl
  have hcontainers : ∀ daemon' name' c, t.containers daemon' name' = some c →
      daemon' = daemon ∧ name' = name ∧ c.running = false ∨
        w.containers daemon' name' = some c := by
    intro daemon' name' c hc
    rw [ht, containers_put] at hc
    split_ifs at hc with heq
    · cases hc
      exact .inl ⟨heq.1, heq.2, rfl⟩
    · exact .inr hc
  rw [← ht]
  clear ht
  have hbooks := h.books
  obtain ⟨i, rfl, hcreating, hstarting⟩ := hbooks.creates daemon name labels hq
  have hcreates : ∀ q ∈ t.pending, q ∈ w.pending := fun q hmem =>
    List.mem_of_mem_erase (hpending ▸ hmem)
  refine ⟨fun a j hj => ?_, by rw [hjobs]; exact h.apart, ?_⟩
  · rw [hjobs] at hj
    have hfits := h.jobs a j hj
    refine hfits.frame (fun hholds => hlock.trans (hfits.locked hholds)) (hreceipts ▸ hfits.files)
      (hreceipts ▸ hfits.clear) (hlog ▸ List.suffix_rfl) (fun _ _ => by rw [hlog]; exact ⟨id, id⟩)
      (fun _ _ daemon labels => hcreates _) fun r _ daemon' c hc hrun hs => ?_
    rw [hlog] at hs
    rcases hcontainers _ _ c hc with ⟨-, hname, -⟩ | hold
    · rw [nameOf_injective hname] at hs
      exact absurd hs hstarting
    · exact ⟨hs, c, hold, hrun⟩
  · exact
      { single := hreceipts ▸ hbooks.single
        wrote := by rw [hreceipts, hlog]; exact hbooks.wrote
        begun := hlog ▸ hbooks.begun
        creates := fun daemon' name' labels' hq' => by
          rw [hlog]
          exact hbooks.creates daemon' name' labels' (hcreates _ hq')
        once := fun name' => by
          rw [hpending]
          exact Nat.le_trans List.erase_sublist.countP_le (hbooks.once name')
        starts := fun daemon' name' hq' => by
          rw [hlog]
          exact hbooks.starts daemon' name' (hcreates _ hq')
        made := fun daemon' name' c hc hrun => by
          rw [hlog]
          rcases hcontainers _ _ c hc with ⟨-, rfl, hrunning⟩ | hold
          · refine ⟨i, rfl, hcreating, fun hrunning' => ?_⟩
            rw [hrunning] at hrunning'
            cases hrunning'
          · exact hbooks.made daemon' name' c hold hrun
        home := fun r hr daemon' hsome => by
          rw [hreceipts] at hr
          rcases hsome with ⟨labels', hq'⟩ | ⟨c, hc, hrun⟩
          · exact hbooks.home r hr daemon' (.inl ⟨labels', hcreates _ hq'⟩)
          · rcases hcontainers _ _ c hc with ⟨rfl, hname, -⟩ | hold
            · exact hbooks.home r hr daemon' (.inl ⟨labels, hname ▸ hq⟩)
            · exact hbooks.home r hr daemon' (.inr ⟨c, hold, hrun⟩)
        covered := fun daemon' i' c hc hrun hs => by
          rw [hlog] at hs
          rw [hreceipts]
          rcases hcontainers _ _ c hc with ⟨-, hname, -⟩ | hold
          · rw [nameOf_injective hname] at hs
            exact absurd hs hstarting
          · exact hbooks.covered daemon' i' c hold hrun hs }

/-- After a container was made, none of its name is to be made any more. -/
theorem Books.create_notMem {daemon name : String} {labels : List (String × String)}
    (h : Books run w) (hq : .create daemon name labels ∈ w.pending) (daemon' : String)
    (labels' : List (String × String)) :
    .create daemon' name labels' ∉ w.pending.erase (.create daemon name labels) := by
  intro hmem
  have hperm := List.perm_cons_erase hq
  have hcount := h.once name
  have hmakes : ∀ d l, Request.creates name (.create d name l) = true := fun _ _ =>
    decide_eq_true rfl
  have hpos : 0 < (w.pending.erase (.create daemon name labels)).countP
      (Request.creates name) := List.countP_pos_iff.mpr ⟨_, hmem, hmakes _ _⟩
  rw [hperm.countP_eq, List.countP_cons_of_pos (hmakes daemon labels)] at hcount
  omega

/-- A container is started. -/
theorem Inv.start {daemon name : String} {c : Container} (h : Inv run w)
    (hq : .start daemon name ∈ w.pending) (hc : w.containers daemon name = some c) :
    Inv run ((w.settle (.start daemon name)).put daemon name
      (some { c with running := true })) := by
  obtain ⟨t, ht⟩ : ∃ t, t = (w.settle (.start daemon name)).put daemon name
      (some { c with running := true }) := ⟨_, rfl⟩
  have hlog : t.log = w.log := by rw [ht]; rfl
  have hpending : t.pending = w.pending.erase (.start daemon name) := by rw [ht]; rfl
  have hreceipts : t.receipts = w.receipts := by rw [ht]; rfl
  have hlock : t.lock = w.lock := by rw [ht]; rfl
  have hjobs : t.jobs = w.jobs := by rw [ht]; rfl
  -- it was there before, and its start was called for
  have hcontainers : ∀ daemon' name' k, t.containers daemon' name' = some k → k.ofRun run →
      ∃ k', w.containers daemon' name' = some k' ∧ k'.ofRun run ∧
        (k.running = true → k'.running = true ∨ name' = name) := by
    intro daemon' name' k hk hrun
    rw [ht, containers_put] at hk
    split_ifs at hk with heq
    · cases hk
      exact ⟨c, by rw [heq.1, heq.2, hc], hrun, fun _ => .inr heq.2⟩
    · exact ⟨k, hk, hrun, .inl⟩
  rw [← ht]
  clear ht
  have hbooks := h.books
  obtain ⟨i, rfl, hstarting⟩ := hbooks.starts daemon name hq
  have hcalls : ∀ q ∈ t.pending, q ∈ w.pending := fun q hmem =>
    List.mem_of_mem_erase (hpending ▸ hmem)
  refine ⟨fun a j hj => ?_, by rw [hjobs]; exact h.apart, ?_⟩
  · rw [hjobs] at hj
    have hfits := h.jobs a j hj
    refine hfits.frame (fun hholds => hlock.trans (hfits.locked hholds)) (hreceipts ▸ hfits.files)
      (hreceipts ▸ hfits.clear) (hlog ▸ List.suffix_rfl) (fun _ _ => by rw [hlog]; exact ⟨id, id⟩)
      (fun _ _ daemon labels => hcalls _) fun r _ daemon' k hk hrun hs => ?_
    obtain ⟨k', hk', hrun', -⟩ := hcontainers _ _ k hk hrun
    exact ⟨hlog ▸ hs, k', hk', hrun'⟩
  · exact
      { single := hreceipts ▸ hbooks.single
        wrote := by rw [hreceipts, hlog]; exact hbooks.wrote
        begun := hlog ▸ hbooks.begun
        creates := fun daemon' name' labels' hq' => by
          rw [hlog]
          exact hbooks.creates daemon' name' labels' (hcalls _ hq')
        once := fun name' => by
          rw [hpending]
          exact Nat.le_trans List.erase_sublist.countP_le (hbooks.once name')
        starts := fun daemon' name' hq' => by
          rw [hlog]
          exact hbooks.starts daemon' name' (hcalls _ hq')
        made := fun daemon' name' k hk hrun => by
          rw [hlog]
          obtain ⟨k', hk', hrun', hrunning⟩ := hcontainers _ _ k hk hrun
          obtain ⟨i', rfl, hcreating, hs⟩ := hbooks.made daemon' name' k' hk' hrun'
          refine ⟨i', rfl, hcreating, fun hr => ?_⟩
          rcases hrunning hr with hold | hname
          · exact hs hold
          · rwa [nameOf_injective hname]
        home := fun r hr daemon' hsome => by
          rw [hreceipts] at hr
          rcases hsome with ⟨labels', hq'⟩ | ⟨k, hk, hrun⟩
          · exact hbooks.home r hr daemon' (.inl ⟨labels', hcalls _ hq'⟩)
          · obtain ⟨k', hk', hrun', -⟩ := hcontainers _ _ k hk hrun
            exact hbooks.home r hr daemon' (.inr ⟨k', hk', hrun'⟩)
        covered := fun daemon' i' k hk hrun hs => by
          rw [hlog] at hs
          rw [hreceipts]
          obtain ⟨k', hk', hrun', -⟩ := hcontainers _ _ k hk hrun
          exact hbooks.covered daemon' i' k' hk' hrun' hs }

/-- What becomes of the containers of the run beside that. -/
theorem Inv.containers (h : Inv run w) {x : Option Container} {daemon name : String}
    (hx : ∀ c, x = some c → c.ofRun run →
      ∃ c', w.containers daemon name = some c' ∧ c'.ofRun run ∧
        (c.running = true → c'.running = true)) : Inv run (w.put daemon name x) := by
  refine h.aside (quiet_containers rfl (List.Sublist.refl _) fun daemon' name' c hc hrun => ?_)
    rfl rfl rfl
  rw [containers_put] at hc
  split_ifs at hc with heq
  · obtain ⟨rfl, rfl⟩ := heq
    exact hx c hc hrun
  · exact ⟨c, hc, hrun, id⟩

theorem Inv.purge (h : Inv run w) {q : Request} {daemon id : String} :
    Inv run ((w.settle q).purge daemon id) := by
  refine h.aside (quiet_containers rfl List.erase_sublist fun daemon' name' c hc hrun => ?_)
    rfl rfl rfl
  refine ⟨c, ?_, hrun, fun hc => hc⟩
  unfold World.purge World.settle at hc
  by_cases hdaemon : daemon' = daemon
  · subst hdaemon
    dsimp only at hc
    rw [Function.update_self] at hc
    exact (Option.filter_eq_some_iff.mp hc).1
  · dsimp only at hc
    rwa [Function.update_of_ne hdaemon] at hc

/-- A job goes on by itself. -/
theorem Inv.move (h : Inv run w) (hj : w.jobs a = some j)
    (hself : Fits run w a { j with phase := p }) : Inv run (w.goes a j p) := by
  have hquiet : Quiet run w (w.goes a j p) := quiet_same rfl rfl rfl
  exact h.goes hj hquiet rfl (fun b k _ hk => (h.jobs b k hk).locked) rfl
    (hself.of_quiet hquiet hself.locked rfl)

/-- What a reconciliation between two receipts has to do with the rest. -/
theorem fits_reconcile (hlock : w.lock = some .reconcile) (hfiles : j.files.Sublist w.receipts)
    (hphase : j.phase = .scanning ∨ ∃ r, j.phase = .asking r) : Fits run w .reconcile j where
  locked _ := hlock
  files := hfiles
  clear r hr := by rcases hphase with hp | ⟨r', hp⟩ <;> simp [hp] at hr
  own := by simp
  confirmed r hr := by rcases hphase with hp | ⟨r', hp⟩ <;> simp [hp, Phase.confirmed?] at hr
  uncreated := by simp
  startable := by simp
  answered := by simp
  quiet r hr := by rcases hphase with hp | ⟨r', hp⟩ <;> simp [hp, Phase.cleared?] at hr

/-- A daemon tells that it has no container of the name of a receipt that names it: there is
none, for the containers of a receipt are at the daemon that it names. -/
theorem Inv.reportAbsent {r : SandboxReceipt} (h : Inv run w) (hj : w.jobs a = some j)
    (hp : j.phase = .locating r ∨ j.phase = .verifying r)
    (hc : w.containers j.daemon r.name = none) :
    Inv run { w.goes a j (.cleared r) with log := .absent j.daemon r.name :: w.log } := by
  have hfits := h.jobs a j hj
  have hphase : j.phase.recorded? = some r ∧ j.phase.confirmed? = some r ∧
      (Phase.holds a (.cleared r) = true → j.phase.holds a = true) := by
    rcases hp with hp | hp
    all_goals
      rw [hp]
      exact ⟨rfl, rfl, by cases a <;> exact id⟩
  obtain ⟨hrecorded, hconfirmed, hholds⟩ := hphase
  obtain ⟨hsingle, -, -⟩ := h.alone hj hrecorded
  have hmem : r ∈ w.receipts := hsingle ▸ List.mem_cons_self
  have hdaemon := hfits.confirmed r hconfirmed
  have hquiet : Quiet run w { w.goes a j (.cleared r) with
      log := .absent j.daemon r.name :: w.log } := quiet_note rfl rfl rfl rfl
  have hframe := hfits.of_quiet hquiet hfits.locked rfl
  refine h.goes hj hquiet rfl (fun b k _ hk => (h.jobs b k hk).locked) rfl
    (hframe.goes (fun hh => hfits.locked (hholds hh)) hrecorded.symm (by simp) ?_
      (by simp [Phase.confirmed?]) (by simp [Phase.uncreated]) (by simp [Phase.startable])
      (by simp) ?_)
  · rintro r' ⟨⟩
    exact ⟨r, receipt?_of_recorded? hrecorded, rfl⟩
  · rintro r' ⟨⟩
    refine ⟨⟨j.daemon, [], w.log, hdaemon, rfl, h.books.wrote r hmem⟩,
      fun daemon c hc' hrun => ?_⟩
    have hhome := h.books.home r hmem daemon (.inr ⟨c, hc', hrun⟩)
    rw [hdaemon] at hhome
    cases hhome
    rw [show w.containers j.daemon r.name = some c from hc'] at hc
    cases hc

/-- The answer that a container is made comes in time. -/
theorem Inv.createAnswered {i : UUID} {r : SandboxReceipt} {cid : String} (h : Inv run w)
    (hj : w.jobs (.command i) = some j) (hp : j.phase = .creating r)
    (hq : .create j.daemon r.name r.labels ∈ w.pending) :
    Inv run (((w.settle (.create j.daemon r.name r.labels)).put j.daemon r.name
      (some ⟨cid, r.labels, false⟩)).goes (.command i) j (.created r)) := by
  have hcreate : Inv run ((w.settle (.create j.daemon r.name r.labels)).put j.daemon r.name
      (some ⟨cid, r.labels, false⟩)) := h.create hq
  have hfits := hcreate.jobs (.command i) j hj
  have hi : r.invocationId = i := (hfits.own i rfl).2.2 r (by rw [hp]; rfl)
  refine hcreate.move hj (hfits.goes (by simp [Phase.holds]) (by rw [hp]; rfl) (by simp)
    (by simp [hp, Phase.receipt?]) (by simp [Phase.confirmed?]) (by simp [Phase.uncreated])
    (by simp [hp, Phase.startable]) ?_ (by simp [Phase.cleared?]))
  rintro i' r' ⟨⟩ ⟨⟩ daemon labels
  exact hi ▸ h.books.create_notMem hq daemon labels

theorem Inv.step (h : Inv run w) (hstep : Step run project w w') : Inv run w' := by
  cases hstep with
  | acquire => exact h.aside (quiet_same rfl rfl rfl) rfl rfl rfl
  | release => exact h.aside (quiet_same rfl rfl rfl) rfl rfl rfl
  | crash =>
    refine ⟨fun _ _ hk => ?_, .inl rfl, h.books.of_quiet (quiet_same rfl rfl rfl) rfl⟩
    cases hk
  | begin i daemon workspace hlease hapart hnew => exact h.begin hapart hnew
  | call daemon workspace hlease hidle => exact h.call hidle
  | @move a j p hj hp => exact h.move hj (hp.fits (h.jobs a j hj))
  | ends hj hp => exact h.ends hj
  | @lock i j r hj hp hfree =>
    have hfits := h.jobs _ j hj
    have hnot : ¬ j.phase.holds (.command i) = true := h.unlocked hj hfree
    have hconfirmed := hfits.confirmed r (by rw [hp]; rfl)
    have hframe : Fits run (w.locks (.command i) j (.locked r)) (.command i) j :=
      hfits.of_quiet (quiet_same rfl rfl rfl) (fun hholds => absurd hholds hnot) rfl
    exact h.locks hj hfree (hframe.prepares (r := r) (by rw [hp]; rfl) rfl rfl (fun _ => rfl)
      (by rw [hp]; rfl) (by simp) hconfirmed)
  | write hj hp => exact h.write hj hp rfl rfl rfl rfl rfl rfl
  | @unlock i j r hj hp =>
    have hfits := h.jobs _ j hj
    have hholds : j.phase.holds (.command i) = true := by rw [hp]; rfl
    have hself : Fits run w (.command i) { j with phase := .prepared r } :=
      hfits.prepares (r := r) (by rw [hp]; rfl) rfl rfl (by simp [Phase.holds]) (by rw [hp]; rfl)
        (by simp) (hfits.confirmed r (by rw [hp]; rfl))
    have hquiet : Quiet run w { w.goes (.command i) j (.prepared r) with lock := none } :=
      quiet_same rfl rfl rfl
    exact h.goes hj hquiet rfl
      (fun b k hb hk hholds' => absurd (h.holder hj hk hholds hholds') hb) rfl
      (hself.of_quiet hquiet (by simp [Phase.holds]) rfl)
  | @lockAgain i j r hj hp hfree =>
    have hfits := h.jobs _ j hj
    have hnot : ¬ j.phase.holds (.command i) = true := h.unlocked hj hfree
    have hframe : Fits run (w.locks (.command i) j (.unlinking r)) (.command i) j :=
      hfits.of_quiet (quiet_same rfl rfl rfl) (fun hholds => absurd hholds hnot) rfl
    exact h.locks hj hfree (hframe.unlinks (by rw [hp]; rfl) rfl (hfits.quiet r (by rw [hp]; rfl)))
  | @scan j hj hp hfree =>
    exact h.locks hj hfree (fits_reconcile rfl (List.Sublist.refl _) (.inl rfl))
  | @next j r rest hj hp htodo hrun =>
    have hfits := h.jobs _ j hj
    have hholds : j.phase.holds .reconcile = true := by rcases hp with hp | hp <;> rw [hp] <;> rfl
    have hfiles : (r :: rest).Sublist w.receipts := by
      have hfiles := hfits.files
      unfold Job.files at hfiles
      rw [htodo] at hfiles
      rcases hp with hp | hp
      all_goals
        rw [hp] at hfiles
        exact hfiles
    exact h.goes hj (quiet_same rfl rfl rfl) rfl (fun b k _ hk => (h.jobs b k hk).locked) rfl
      (fits_reconcile (hfits.locked hholds) hfiles (.inr ⟨r, rfl⟩))
  | unlink hj hp => exact h.unlink hj hp rfl rfl rfl rfl rfl rfl
  | createCall hj hp => exact h.createCall hj hp rfl rfl rfl rfl rfl rfl
  | startCall hj hp => exact h.startCall hj hp rfl rfl rfl rfl rfl rfl
  | @removeCall a j r id hj hp =>
    have hfits := h.jobs _ j hj
    have hconfirmed := hfits.confirmed r (by rw [hp]; rfl)
    have hself : Fits run w a { j with phase := .removing r id } :=
      hfits.removes (by rw [hp]; rfl) rfl
        (fun hholds => hfits.locked (by rw [hp]; cases a <;> exact hholds)) fun _ => hconfirmed
    have hquiet : Quiet run w { w.goes a j (.removing r id) with
        pending := .remove j.daemon id :: w.pending } :=
      { log := List.suffix_rfl
        calls := fun _ => ⟨fun h => h, fun h => h⟩
        creates := fun _ _ _ hq => (List.mem_cons.mp hq).resolve_left (by simp)
        once := fun _ => (List.countP_cons_of_neg (by simp [Request.creates])).le
        starts := fun _ _ hq => (List.mem_cons.mp hq).resolve_left (by simp)
        containers := fun _ _ c hc hrun => ⟨c, hc, hrun, fun h => h⟩ }
    exact h.goes hj hquiet rfl (fun b k _ hk => (h.jobs b k hk).locked) rfl
      (hself.of_quiet hquiet hself.locked rfl)
  | reportAbsent hj hp hc => exact h.reportAbsent hj hp hc
  | create id hq hfree hid => exact h.create hq
  | createAnswered id hj hp hq hfree hid => exact h.createAnswered hj hp hq
  | start hq hc => exact h.start hq hc
  | remove hq => exact h.purge
  | @removeAnswered a j r id hj hp hq =>
    have hpurge : Inv run ((w.settle (.remove j.daemon id)).purge j.daemon id) := h.purge
    have hfits := hpurge.jobs _ j hj
    have hconfirmed := hfits.confirmed r (by rw [hp]; rfl)
    exact hpurge.move hj (hfits.removes (by rw [hp]; rfl) rfl
      (fun hholds => hfits.locked (by rw [hp]; cases a <;> exact hholds)) fun _ => hconfirmed)
  | lost =>
    exact h.aside (quiet_containers rfl List.erase_sublist fun _ _ c hc hrun => ⟨c, hc, hrun, id⟩)
      rfl rfl rfl
  | @stop daemon name c hc =>
    refine h.containers fun k hk hrun => ?_
    cases hk
    exact ⟨c, hc, hrun, by simp⟩
  | gone => exact h.containers (by simp)
  | other hc =>
    refine h.containers fun k hk hrun => ?_
    cases hk
    exact absurd hrun hc

theorem inv_initial (h : Initial run w) : Inv run w where
  jobs a j hj := by
    rw [h.jobs a] at hj
    cases hj
  apart := .inl (h.jobs _)
  books :=
    { single := by rw [h.receipts]; exact Nat.zero_le _
      wrote := by simp [h.receipts]
      begun := by simp [h.log]
      creates := by simp [h.pending]
      once := by simp [h.pending]
      starts := by simp [h.pending]
      made := fun daemon name c hc hrun => absurd hrun (h.containers daemon name c hc)
      home := by simp [h.receipts]
      covered := by simp [h.log] }

/-- A receipt goes only where its daemon told before that there is nothing of its name. -/
theorem Inv.reported (h : Inv run w) (hstep : Step run project w w') :
    ∀ r ∈ w.receipts, r ∉ w'.receipts → Reported r w.log := by
  cases hstep with
  | write => exact fun r hr hnot => absurd (List.mem_cons_of_mem _ hr) hnot
  | @unlink a j r hj hp =>
    intro r' hr' hnot
    obtain ⟨hsingle, -, -⟩ := h.alone hj (r := r) (by rw [hp]; rfl)
    rw [hsingle, List.mem_singleton] at hr'
    rw [hr']
    exact ((h.jobs a j hj).quiet r (by rw [hp]; rfl)).1
  | _ => exact fun r hr hnot => absurd hr hnot

/-- What runs is on record, however the steps of the commands, of the reconciliations and of the
daemons come. -/
theorem running_recorded {start : World} (hstart : Initial run start)
    (hrun : Relation.ReflTransGen (Step run project) start w) : Recorded run project w := by
  have hinv : Inv run w := by
    induction hrun with
    | refl => exact inv_initial hstart
    | tail _ hstep ih => exact ih.step hstep
  refine ⟨fun daemon name c hc hof hrunning => ?_, hinv.books.single,
    fun w' hstep => hinv.reported hstep⟩
  obtain ⟨i, rfl, -, hstarting⟩ := hinv.books.made daemon name c hc hof
  obtain ⟨r, hr, hi⟩ := hinv.books.covered daemon i c hc hof (hstarting hrunning)
  exact ⟨r, hr, congrArg nameOf hi⟩

def sampleStart : World where
  lease := none
  jobs _ := none
  lock := none
  receipts := []
  containers _ _ := none
  pending := []
  log := []

/-- A command whose controller dies once the container runs: the container is on record. -/
theorem sample_recorded :
    ∃ w, Recorded (.uuid4 0) "project" w ∧ w.jobs (.command (.uuid4 1)) = none ∧
      ∃ c, w.containers "daemon" (nameOf (.uuid4 1)) = some c ∧ c.ofRun (.uuid4 0) ∧
        c.running = true := by
  have hstart : Initial (.uuid4 0) sampleStart :=
    ⟨fun _ => rfl, rfl, rfl, rfl, by simp [sampleStart]⟩
  have h : Relation.ReflTransGen (Step (.uuid4 0) "project") sampleStart sampleStart := .refl
  have h := h.tail (.acquire 0 rfl)
  have h := h.tail (.begin (.uuid4 1) "daemon" "workspace" (by simp) rfl (by simp [sampleStart]))
  have h := h.tail (.move (a := .command (.uuid4 1)) rfl (.identify rfl))
  have h := h.tail (.lock (i := .uuid4 1) rfl rfl rfl)
  have h := h.tail (.move (a := .command (.uuid4 1)) rfl (.check rfl rfl))
  have h := h.tail (.write (i := .uuid4 1) rfl rfl)
  have h := h.tail (.unlock (i := .uuid4 1) rfl rfl)
  have h := h.tail (.createCall (i := .uuid4 1) rfl rfl)
  have h := h.tail (.createAnswered (i := .uuid4 1) "id" rfl rfl List.mem_cons_self rfl
    fun n c hc => by cases hc)
  have h := h.tail (.startCall (i := .uuid4 1) rfl rfl)
  have h := h.tail (.start List.mem_cons_self rfl)
  have h := h.tail .crash
  exact ⟨_, running_recorded hstart h, rfl, _, rfl, rfl, rfl⟩

end Sandbox

end Orqalis
