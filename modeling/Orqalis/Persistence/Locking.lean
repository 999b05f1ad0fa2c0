import Mathlib.Algebra.BigOperators.Group.Finset.Basic
import Mathlib.Algebra.BigOperators.Group.Finset.Piecewise
import Mathlib.Algebra.Order.BigOperators.Group.Finset
import Mathlib.Algebra.Order.Group.Int
import Mathlib.Logic.Relation

/-!
# File locks

The locks of one path in one process. Any number of `FileLock` instances share a gate, which a
thread owns any number of times, a depth and the handle of the lock file; each instance counts
its own acquisitions.

A block that is run under the gate's condition is one step, and so is every other statement that
changes the books. What a clock reads, whether a file opens and whether another process has it
locked is left open, so a wait may expire and a file operation may fail at any time.
-/

namespace Orqalis

namespace Locking

variable {τ : Type*} [DecidableEq τ]

/-! ## The gate -/

/-- A gate. A thread waits in one call at a time, and stands for its waiter. -/
structure ReentrantGate (τ : Type*) where
  owner : Option τ := none
  depth : Int := 0
  waiters : List τ := []
deriving DecidableEq

/-- What becomes of a thread at the gate. -/
inductive Answer
  | granted
  | reentered
  | refused
  | waits
deriving DecidableEq, Repr

namespace ReentrantGate

/-- A waiter looks whether it is its turn. -/
def poll (g : ReentrantGate τ) (t : τ) (expired : Bool) : ReentrantGate τ × Answer :=
  if g.owner ≠ none ∨ g.waiters.head? ≠ some t then
    if expired then ({ g with waiters := g.waiters.erase t }, .refused) else (g, .waits)
  else if expired then ({ g with waiters := g.waiters.erase t }, .refused)
  else ({ owner := some t, depth := 1, waiters := g.waiters.erase t }, .granted)

/-- A thread comes to the gate, with a timeout of zero or not. -/
def acquire (g : ReentrantGate τ) (t : τ) (zero expired : Bool) : ReentrantGate τ × Answer :=
  if g.owner = some t then ({ g with depth := g.depth + 1 }, .reentered)
  else if g.owner = none ∧ g.waiters = [] then
    if !zero && expired then (g, .refused)
    else ({ g with owner := some t, depth := 1 }, .granted)
  else if zero then (g, .refused)
  else poll { g with waiters := g.waiters ++ [t] } t expired

/-- A thread leaves the gate once. One that does not own it raises, and changes nothing. -/
def release (g : ReentrantGate τ) (t : τ) : ReentrantGate τ :=
  if g.owner ≠ some t then g
  else if g.depth - 1 = 0 then { g with owner := none, depth := g.depth - 1 }
  else { g with depth := g.depth - 1 }

/-- What comes of a waiter that looks. -/
theorem poll_cases (g : ReentrantGate τ) (t : τ) (expired : Bool) :
    g.poll t expired = ({ g with waiters := g.waiters.erase t }, .refused) ∨
    g.poll t expired = (g, .waits) ∨
    (g.owner = none ∧ g.waiters.head? = some t ∧
      g.poll t expired =
        ({ owner := some t, depth := 1, waiters := g.waiters.erase t }, .granted)) := by
  unfold poll
  split_ifs with hturn hexpired hexpired
  · exact .inl rfl
  · exact .inr (.inl rfl)
  · exact .inl rfl
  · rw [not_or, not_not, not_not] at hturn
    exact .inr (.inr ⟨hturn.1, hturn.2, rfl⟩)

/-- What comes of a thread at the gate, of which it is not in the queue. -/
theorem acquire_cases (g : ReentrantGate τ) {t : τ} (hnot : t ∉ g.waiters) (zero expired : Bool) :
    (g.owner = some t ∧ g.acquire t zero expired = ({ g with depth := g.depth + 1 }, .reentered)) ∨
    (g.owner = none ∧ g.waiters = [] ∧
      g.acquire t zero expired = ({ owner := some t, depth := 1, waiters := [] }, .granted)) ∨
    (g.owner ≠ some t ∧ g.acquire t zero expired = (g, .refused)) ∨
    (g.owner ≠ some t ∧
      g.acquire t zero expired = ({ g with waiters := g.waiters ++ [t] }, .waits)) := by
  unfold acquire
  split_ifs with howner hfree hlate hzero
  · exact .inl ⟨howner, rfl⟩
  · exact .inr (.inr (.inl ⟨howner, rfl⟩))
  · refine .inr (.inl ⟨hfree.1, hfree.2, ?_⟩)
    rw [hfree.2]
  · exact .inr (.inr (.inl ⟨howner, rfl⟩))
  · -- behind another waiter, or with the gate taken, it is not its turn
    have hturn : g.owner ≠ none ∨ (g.waiters ++ [t]).head? ≠ some t := by
      by_cases hempty : g.waiters = []
      · exact .inl fun hnone => hfree ⟨hnone, hempty⟩
      · obtain ⟨u, rest, hu⟩ := List.exists_cons_of_ne_nil hempty
        refine .inr fun hhead => hnot ?_
        rw [hu, List.cons_append, List.head?_cons] at hhead
        rw [hu, ← Option.some.inj hhead]
        exact List.mem_cons_self
    unfold poll
    rw [if_pos hturn]
    split_ifs
    · refine .inr (.inr (.inl ⟨howner, ?_⟩))
      simp only
      rw [List.erase_append_right _ hnot, List.erase_cons_head, List.append_nil]
    · exact .inr (.inr (.inr ⟨howner, rfl⟩))

end ReentrantGate

/-! ## The locks of a path -/

/-- Where a thread is in its calls, on some instance. -/
inductive LockPhase
  | idle
  /-- In the queue of the gate. -/
  | waiting (i : Nat)
  /-- Through the gate. -/
  | entered (i : Nat)
  /-- Has raised the depth of a lock that is held. -/
  | reentered (i : Nat)
  /-- Has the file open, and tries to lock it. -/
  | opened (i : Nat)
  | locked (i : Nat)
  /-- Has stored the handle. -/
  | stored (i : Nat)
  /-- Has set the depth. -/
  | counted (i : Nat)
  /-- About to leave the gate and to raise. -/
  | failing (i : Nat)
  /-- A release that has yet to look at the owner. -/
  | checking (i : Nat)
  | checked (i : Nat)
  /-- Has lowered the acquisitions. -/
  | dropped (i : Nat)
  /-- Has lowered the depth. -/
  | lowered (i : Nat)
  /-- Has taken the handle back, to unlock and to close the file. -/
  | closing (i : Nat)
deriving DecidableEq, Repr

namespace LockPhase

/-- Whether a thread stands in the queue. -/
def waits : LockPhase → Bool
  | waiting _ => true
  | _ => false

/-- Whether a thread is at what only the owner of the gate does. -/
def inside : LockPhase → Bool
  | idle | waiting _ | checking _ => false
  | _ => true

/-- Whether a thread is in no call that has changed the books, or is about to. -/
def settled : LockPhase → Bool
  | idle | checking _ | checked _ => true
  | _ => false

/-- The instance of a call. -/
def instance? : LockPhase → Option Nat
  | idle => none
  | waiting i | entered i | reentered i | opened i | locked i | stored i | counted i | failing i
  | checking i | checked i | dropped i | lowered i | closing i => some i

/-- The instance of a release that has changed nothing yet. -/
def releasing? : LockPhase → Option Nat
  | checking i | checked i => some i
  | _ => none

/-- How often a thread has passed the gate in a call to acquire that has not returned. -/
def claims : LockPhase → Int
  | entered _ | reentered _ | opened _ | locked _ | stored _ | counted _ | failing _ => 1
  | _ => 0

end LockPhase

/-- What is booked of a path: the owner and the depth of the gate, the depth of the path, whether
its handle is open, and the acquisitions of the instances. -/
structure Books (τ : Type*) where
  owner : Option τ
  gateDepth : Int
  depth : Int
  handle : Bool
  acquisitions : Nat → Int

/-- The locks of a path, and where each thread is. -/
structure LockState (τ : Type*) where
  gate : ReentrantGate τ := {}
  depth : Int := 0
  handle : Bool := false
  acquisitions : Nat → Int := fun _ => 0
  instances : Nat := 0
  phase : τ → LockPhase := fun _ => .idle

/-- What a step tells of a call. -/
inductive LockEvent (τ : Type*)
  | quiet
  /-- A free gate was granted. -/
  | granted (t : τ)
  /-- A call to acquire returned. -/
  | acquired (t : τ)
  /-- A call to acquire raised. -/
  | failed (t : τ)
  /-- A call to release gave the lock back. -/
  | released (t : τ)
  /-- A call to release raised, and gave nothing back. -/
  | refused (t : τ)

def Answer.phase (i : Nat) : Answer → LockPhase
  | granted | reentered => .entered i
  | refused => .idle
  | waits => .waiting i

def Answer.event (t : τ) : Answer → LockEvent τ
  | granted => .granted t
  | refused => .failed t
  | reentered | waits => .quiet

namespace LockState

/-- What is booked. -/
def books (s : LockState τ) : Books τ :=
  { owner := s.gate.owner, gateDepth := s.gate.depth, depth := s.depth, handle := s.handle,
    acquisitions := s.acquisitions }

/-- The acquisitions of all instances. -/
def total (s : LockState τ) : Int := ∑ i ∈ Finset.range s.instances, s.acquisitions i

/-- A thread goes on. -/
def goes (s : LockState τ) (t : τ) (phase : LockPhase) : LockState τ :=
  { s with phase := Function.update s.phase t phase }

/-- A thread goes on with what the gate answered. -/
def through (s : LockState τ) (t : τ) (i : Nat) (r : ReentrantGate τ × Answer) : LockState τ :=
  { s.goes t (r.2.phase i) with gate := r.1 }

/-- A thread leaves the gate, at the end of a call. -/
def leave (s : LockState τ) (t : τ) : LockState τ :=
  { s.goes t .idle with gate := s.gate.release t }

/-- Set the acquisitions of an instance. -/
def count (s : LockState τ) (i : Nat) (n : Int) : LockState τ :=
  { s with acquisitions := Function.update s.acquisitions i n }

end LockState

/-- One step of a thread, or a new instance. -/
inductive Step : LockState τ → LockEvent τ → LockState τ → Prop
  /-- A new instance. -/
  | create {s} : Step s .quiet { s with instances := s.instances + 1 }
  /-- The gate does not take the timeout, or its condition is not free in time. -/
  | reject {s} {t : τ} (hphase : s.phase t = .idle) : Step s (.failed t) s
  /-- The owner of the gate passes it without its condition. -/
  | fast {s} {t : τ} {i : Nat} (hphase : s.phase t = .idle) (hi : i < s.instances)
      (howner : s.gate.owner = some t) :
      Step s .quiet { s.goes t (.entered i) with gate := { s.gate with depth := s.gate.depth + 1 } }
  /-- A thread comes to the gate. -/
  | acquire {s} {t : τ} {i : Nat} (zero expired : Bool) (hphase : s.phase t = .idle)
      (hi : i < s.instances) :
      Step s ((s.gate.acquire t zero expired).2.event t)
        (s.through t i (s.gate.acquire t zero expired))
  /-- A waiter is woken, or its wait expires. -/
  | poll {s} {t : τ} {i : Nat} (expired : Bool) (hphase : s.phase t = .waiting i) :
      Step s ((s.gate.poll t expired).2.event t) (s.through t i (s.gate.poll t expired))
  /-- The lock is held: raise the depth. -/
  | deepen {s} {t : τ} {i : Nat} (hphase : s.phase t = .entered i) (hdepth : s.depth ≠ 0) :
      Step s .quiet { s.goes t (.reentered i) with depth := s.depth + 1 }
  /-- Count the acquisition of a lock that was held. -/
  | again {s} {t : τ} {i : Nat} (hphase : s.phase t = .reentered i) :
      Step s (.acquired t) ((s.goes t .idle).count i (s.acquisitions i + 1))
  /-- Open the lock file. -/
  | openFile {s} {t : τ} {i : Nat} (hphase : s.phase t = .entered i) (hdepth : s.depth = 0) :
      Step s .quiet (s.goes t (.opened i))
  /-- The directory cannot be made, or the lock file not opened. -/
  | openFails {s} {t : τ} {i : Nat} (hphase : s.phase t = .entered i) (hdepth : s.depth = 0) :
      Step s .quiet (s.goes t (.failing i))
  /-- Another process has the file locked, and there is time left. -/
  | retry {s} {t : τ} {i : Nat} (hphase : s.phase t = .opened i) : Step s .quiet s
  /-- Lock the file. -/
  | lockFile {s} {t : τ} {i : Nat} (hphase : s.phase t = .opened i) :
      Step s .quiet (s.goes t (.locked i))
  /-- The file cannot be locked, or not in time: it is closed. -/
  | lockFails {s} {t : τ} {i : Nat} (hphase : s.phase t = .opened i) :
      Step s .quiet (s.goes t (.failing i))
  /-- Store the handle. -/
  | store {s} {t : τ} {i : Nat} (hphase : s.phase t = .locked i) :
      Step s .quiet { s.goes t (.stored i) with handle := true }
  /-- Set the depth. -/
  | first {s} {t : τ} {i : Nat} (hphase : s.phase t = .stored i) :
      Step s .quiet { s.goes t (.counted i) with depth := 1 }
  /-- Count the acquisition. -/
  | done {s} {t : τ} {i : Nat} (hphase : s.phase t = .counted i) :
      Step s (.acquired t) ((s.goes t .idle).count i 1)
  /-- An acquisition that failed leaves the gate. -/
  | fail {s} {t : τ} {i : Nat} (hphase : s.phase t = .failing i) : Step s (.failed t) (s.leave t)
  /-- A release of an instance that holds the lock. -/
  | release {s} {t : τ} {i : Nat} (hphase : s.phase t = .idle) (hi : i < s.instances)
      (hcount : 0 < s.acquisitions i) (hdepth : 0 < s.depth) :
      Step s .quiet (s.goes t (.checking i))
  /-- A release of an instance that does not hold it. -/
  | unheld {s} {t : τ} {i : Nat} (hphase : s.phase t = .idle) (hi : i < s.instances)
      (hcount : s.acquisitions i ≤ 0 ∨ s.depth ≤ 0) : Step s (.refused t) s
  /-- The thread owns the gate. -/
  | ensureOwned {s} {t : τ} {i : Nat} (hphase : s.phase t = .checking i)
      (howner : s.gate.owner = some t) : Step s .quiet (s.goes t (.checked i))
  /-- The thread does not own the gate. -/
  | unowned {s} {t : τ} {i : Nat} (hphase : s.phase t = .checking i)
      (howner : s.gate.owner ≠ some t) : Step s (.refused t) (s.goes t .idle)
  /-- Lower the acquisitions. -/
  | drop {s} {t : τ} {i : Nat} (hphase : s.phase t = .checked i) :
      Step s .quiet ((s.goes t (.dropped i)).count i (s.acquisitions i - 1))
  /-- Lower the depth. -/
  | lower {s} {t : τ} {i : Nat} (hphase : s.phase t = .dropped i) :
      Step s .quiet { s.goes t (.lowered i) with depth := s.depth - 1 }
  /-- The lock is still held: leave the gate. -/
  | keep {s} {t : τ} {i : Nat} (hphase : s.phase t = .lowered i) (hdepth : s.depth ≠ 0) :
      Step s (.released t) (s.leave t)
  /-- Take the handle back. -/
  | take {s} {t : τ} {i : Nat} (hphase : s.phase t = .lowered i) (hdepth : s.depth = 0)
      (hhandle : s.handle = true) : Step s .quiet { s.goes t (.closing i) with handle := false }
  /-- There is no handle: leave the gate, and raise. -/
  | inconsistent {s} {t : τ} {i : Nat} (hphase : s.phase t = .lowered i) (hdepth : s.depth = 0)
      (hhandle : s.handle = false) : Step s (.released t) (s.leave t)
  /-- Unlock and close the file, which may fail, and leave the gate. -/
  | close {s} {t : τ} {i : Nat} (hphase : s.phase t = .closing i) :
      Step s (.released t) (s.leave t)

/-- A run, with what it told, the last first. -/
inductive Run : List (LockEvent τ) → LockState τ → Prop
  | start : Run [] {}
  | step {log s e s'} (hrun : Run log s) (hstep : Step s e s') : Run (e :: log) s'

/-- How often a thread has acquired locks of the path more than it has released them. -/
def balance (t : τ) : List (LockEvent τ) → Int
  | [] => 0
  | .acquired u :: log => balance t log + if u = t then 1 else 0
  | .released u :: log => balance t log - if u = t then 1 else 0
  | _ :: log => balance t log

/-! ## What the books say -/

/-- What the depth of the gate, that of the path, the acquisitions and the handle are while the
owner of the gate is at a phase, or while there is none. -/
def Fits (gateDepth depth total : Int) (handle : Bool) : Option LockPhase → Prop
  | none => gateDepth = 0 ∧ depth = 0 ∧ total = 0 ∧ handle = false
  | some .idle | some (.checking _) | some (.checked _) =>
    gateDepth = depth ∧ total = depth ∧ 0 < depth ∧ handle = true
  | some (.waiting _) => False
  | some (.entered _) =>
    gateDepth = depth + 1 ∧ total = depth ∧ 0 ≤ depth ∧ handle = decide (0 < depth)
  | some (.reentered _) => gateDepth = depth ∧ total = depth - 1 ∧ 1 < depth ∧ handle = true
  | some (.opened _) | some (.locked _) | some (.failing _) | some (.closing _) =>
    gateDepth = 1 ∧ depth = 0 ∧ total = 0 ∧ handle = false
  | some (.stored _) => gateDepth = 1 ∧ depth = 0 ∧ total = 0 ∧ handle = true
  | some (.counted _) => gateDepth = 1 ∧ depth = 1 ∧ total = 0 ∧ handle = true
  | some (.dropped _) => gateDepth = depth ∧ total = depth - 1 ∧ 0 < depth ∧ handle = true
  | some (.lowered _) => gateDepth = depth + 1 ∧ total = depth ∧ 0 ≤ depth ∧ handle = true

structure Inv (log : List (LockEvent τ)) (s : LockState τ) : Prop where
  nodup : s.gate.waiters.Nodup
  queued : ∀ u, u ∈ s.gate.waiters ↔ (s.phase u).waits = true
  inside : ∀ u, (s.phase u).inside = true → s.gate.owner = some u
  fits : Fits s.gate.depth s.depth s.total s.handle (s.gate.owner.map s.phase)
  counts : ∀ i, 0 ≤ s.acquisitions i
  unused : ∀ i, s.instances ≤ i → s.acquisitions i = 0
  known : ∀ u i, (s.phase u).instance? = some i → i < s.instances
  held : ∀ u i, s.gate.owner = some u → (s.phase u).releasing? = some i → 0 < s.acquisitions i
  balanced : ∀ u, balance u log =
    if s.gate.owner = some u then s.gate.depth - (s.phase u).claims else 0

theorem inv_start : Inv [] ({} : LockState τ) where
  nodup := List.nodup_nil
  queued := by simp [LockPhase.waits]
  inside := by simp [LockPhase.inside]
  fits := ⟨rfl, rfl, rfl, rfl⟩
  counts _ := le_rfl
  unused _ _ := rfl
  known := by simp [LockPhase.instance?]
  held _ _ howner := by cases howner
  balanced _ := rfl

variable {log : List (LockEvent τ)} {s s' : LockState τ} {e : LockEvent τ} {t : τ} {i : Nat}

omit [DecidableEq τ] in
theorem total_count {n : Int} (hi : i < s.instances) :
    (s.count i n).total = s.total - s.acquisitions i + n := by
  have hmem : i ∈ Finset.range s.instances := Finset.mem_range.mpr hi
  unfold LockState.total LockState.count
  simp only
  rw [Finset.sum_update_of_mem hmem, ← Finset.sum_sdiff (Finset.singleton_subset_iff.mpr hmem),
    Finset.sum_singleton]
  omega

/-- Where no lock is held, no instance counts any. -/
theorem Inv.acquisitions_eq_zero (h : Inv log s) (htotal : s.total = 0) :
    s.acquisitions = fun _ => 0 := by
  funext i
  by_cases hi : i < s.instances
  · exact (Finset.sum_eq_zero_iff_of_nonneg fun j _ => h.counts j).mp htotal i
      (Finset.mem_range.mpr hi)
  · exact h.unused i (by omega)

/-- A step of the owner that stays the owner. -/
theorem Inv.own {p : LockPhase} (h : Inv log s) (howner : s.gate.owner = some t)
    (hgate : s'.gate.owner = some t) (hwaiters : s'.gate.waiters = s.gate.waiters)
    (hphase : s'.phase = Function.update s.phase t p) (hwaits : p.waits = false)
    (hfits : Fits s'.gate.depth s'.depth s'.total s'.handle (some p))
    (hinstances : s'.instances = s.instances) (hcounts : ∀ i, 0 ≤ s'.acquisitions i)
    (hunused : ∀ i, s'.instances ≤ i → s'.acquisitions i = 0)
    (hknown : ∀ i, p.instance? = some i → i < s.instances)
    (hheld : ∀ i, p.releasing? = some i → 0 < s'.acquisitions i)
    (hbalance : balance t (e :: log) = s'.gate.depth - p.claims)
    (hothers : ∀ u, u ≠ t → balance u (e :: log) = balance u log) : Inv (e :: log) s' := by
  have hidle : (s.phase t).waits = false := by
    have hfits := h.fits
    rw [howner] at hfits
    cases hp : s.phase t <;> simp_all [Fits, LockPhase.waits]
  have hself : s'.phase t = p := by rw [hphase, Function.update_self]
  have hother : ∀ u, u ≠ t → s'.phase u = s.phase u := fun u hu => by
    rw [hphase, Function.update_of_ne hu]
  refine
    { nodup := hwaiters ▸ h.nodup
      queued := fun u => ?_
      inside := fun u hu => ?_
      fits := by rw [hgate, Option.map_some, hself]; exact hfits
      counts := hcounts
      unused := hunused
      known := fun u i hu => ?_
      held := fun u i hu hi => ?_
      balanced := fun u => ?_ }
  · rw [hwaiters, h.queued u]
    by_cases hut : u = t
    · subst hut
      rw [hself, hwaits, hidle]
    · rw [hother u hut]
  · by_cases hut : u = t
    · rw [hgate, hut]
    · rw [hother u hut] at hu
      have := (h.inside u hu).symm.trans howner
      exact absurd (Option.some.inj this) hut
  · rw [hinstances]
    by_cases hut : u = t
    · rw [hut, hself] at hu
      exact hknown i hu
    · exact h.known u i (hother u hut ▸ hu)
  · obtain rfl : t = u := Option.some.inj (hgate.symm.trans hu)
    rw [hself] at hi
    exact hheld i hi
  · by_cases hut : u = t
    · rw [hut, if_pos hgate, hself]
      exact hbalance
    · rw [hothers u hut, h.balanced u, hgate, howner]
      have hne : ¬ (some t = some u) := fun heq => hut (Option.some.inj heq).symm
      rw [if_neg hne, if_neg hne]

theorem goes_self {p : LockPhase} : (s.goes t p).phase t = p := Function.update_self ..

theorem goes_ne {u : τ} {p : LockPhase} (hu : u ≠ t) : (s.goes t p).phase u = s.phase u :=
  Function.update_of_ne hu ..

/-- A step of a thread outside: it stays where it changes no books. -/
theorem Inv.aside {p : LockPhase} (h : Inv log s) (hfrom : (s.phase t).inside = false)
    (hnot : (s.phase t).waits = false) (hp : p.inside = false) (hwaits : p.waits = false)
    (hknown : ∀ i, p.instance? = some i → i < s.instances)
    (hheld : ∀ i, p.releasing? = some i → 0 < s.acquisitions i)
    (hothers : ∀ u, balance u (e :: log) = balance u log) : Inv (e :: log) (s.goes t p) := by
  have hclaims : p.claims = (s.phase t).claims := by
    cases hq : s.phase t <;> cases p <;> simp_all [LockPhase.inside, LockPhase.claims]
  refine
    { nodup := h.nodup
      queued := fun u => ?_
      inside := fun u hu => ?_
      fits := ?_
      counts := h.counts
      unused := h.unused
      known := fun u i hu => ?_
      held := fun u i hu hi => ?_
      balanced := fun u => ?_ }
  · refine (h.queued u).trans ?_
    by_cases hut : u = t
    · rw [hut, goes_self, hwaits, hnot]
    · rw [goes_ne hut]
  · by_cases hut : u = t
    · rw [hut, goes_self, hp] at hu
      cases hu
    · exact h.inside u (goes_ne hut ▸ hu)
  · have hfits := h.fits
    change Fits _ _ _ _ (s.gate.owner.map (s.goes t p).phase)
    cases howner : s.gate.owner with
    | none => rwa [howner] at hfits
    | some u =>
      rw [howner] at hfits
      rw [Option.map_some] at hfits ⊢
      by_cases hut : u = t
      · subst hut
        rw [goes_self]
        cases hq : s.phase u <;> cases p <;>
          simp_all [LockPhase.inside, LockPhase.waits, Fits, LockState.goes, LockState.total]
      · rw [goes_ne hut]
        exact hfits
  · by_cases hut : u = t
    · rw [hut, goes_self] at hu
      exact hknown i hu
    · exact h.known u i (goes_ne hut ▸ hu)
  · by_cases hut : u = t
    · rw [hut, goes_self] at hi
      exact hheld i hi
    · exact h.held u i hu (goes_ne hut ▸ hi)
  · rw [hothers u, h.balanced u]
    change _ = if s.gate.owner = some u then s.gate.depth - ((s.goes t p).phase u).claims else 0
    by_cases hut : u = t
    · rw [hut, goes_self, hclaims]
    · rw [goes_ne hut]

/-- A thread joins the queue, or leaves it without the gate. -/
theorem Inv.requeue {p : LockPhase} {waiters : List τ} (h : Inv log s)
    (howner : s.gate.owner ≠ some t) (hp : p.inside = false) (hnodup : waiters.Nodup)
    (hself : t ∈ waiters ↔ p.waits = true)
    (hother : ∀ u, u ≠ t → (u ∈ waiters ↔ u ∈ s.gate.waiters))
    (hknown : ∀ i, p.instance? = some i → i < s.instances)
    (hothers : ∀ u, balance u (e :: log) = balance u log) :
    Inv (e :: log) { s.goes t p with gate := { s.gate with waiters } } := by
  refine
    { nodup := hnodup
      queued := fun u => ?_
      inside := fun u hu => ?_
      fits := ?_
      counts := h.counts
      unused := h.unused
      known := fun u i hu => ?_
      held := fun u i hu hi => ?_
      balanced := fun u => ?_ }
  · change u ∈ waiters ↔ ((s.goes t p).phase u).waits = true
    by_cases hut : u = t
    · rw [hut, goes_self, hself]
    · rw [goes_ne hut, hother u hut, h.queued u]
  · change ((s.goes t p).phase u).inside = true at hu
    by_cases hut : u = t
    · rw [hut, goes_self, hp] at hu
      cases hu
    · exact h.inside u (goes_ne hut ▸ hu)
  · have hfits := h.fits
    change Fits _ _ _ _ (s.gate.owner.map (s.goes t p).phase)
    cases hu : s.gate.owner with
    | none => rwa [hu] at hfits
    | some u =>
      have hut : u ≠ t := fun heq => howner (heq ▸ hu)
      rw [hu] at hfits
      rw [Option.map_some, goes_ne hut]
      exact hfits
  · change ((s.goes t p).phase u).instance? = some i at hu
    by_cases hut : u = t
    · rw [hut, goes_self] at hu
      exact hknown i hu
    · exact h.known u i (goes_ne hut ▸ hu)
  · have hut : u ≠ t := fun heq => howner (heq ▸ hu)
    exact h.held u i hu (goes_ne hut ▸ hi)
  · rw [hothers u, h.balanced u]
    change _ = if s.gate.owner = some u then s.gate.depth - ((s.goes t p).phase u).claims else 0
    by_cases hut : u = t
    · rw [hut, if_neg howner, if_neg howner]
    · rw [goes_ne hut]

/-- A free gate is granted. -/
theorem Inv.grant {waiters : List τ} (h : Inv log s) (hfree : s.gate.owner = none)
    (hnodup : waiters.Nodup) (hself : t ∉ waiters)
    (hother : ∀ u, u ≠ t → (u ∈ waiters ↔ u ∈ s.gate.waiters)) (hi : i < s.instances)
    (hothers : ∀ u, balance u (e :: log) = balance u log) :
    Inv (e :: log)
      { s.goes t (.entered i) with gate := { owner := some t, depth := 1, waiters } } := by
  have hfits := h.fits
  rw [hfree] at hfits
  obtain ⟨-, hdepth, htotal, hhandle⟩ := hfits
  refine
    { nodup := hnodup
      queued := fun u => ?_
      inside := fun u hu => ?_
      fits := ?_
      counts := h.counts
      unused := h.unused
      known := fun u j hu => ?_
      held := fun u j hu hj => ?_
      balanced := fun u => ?_ }
  · change u ∈ waiters ↔ ((s.goes t (.entered i)).phase u).waits = true
    by_cases hut : u = t
    · rw [hut, goes_self]
      simpa [LockPhase.waits] using hself
    · rw [goes_ne hut, hother u hut, h.queued u]
  · change ((s.goes t (.entered i)).phase u).inside = true at hu
    by_cases hut : u = t
    · rw [hut]
    · have := h.inside u (goes_ne hut ▸ hu)
      rw [hfree] at this
      cases this
  · change Fits 1 s.depth s.total s.handle (some ((s.goes t (.entered i)).phase t))
    rw [goes_self]
    exact ⟨by omega, by omega, by omega, by rw [hhandle, hdepth]; rfl⟩
  · change ((s.goes t (.entered i)).phase u).instance? = some j at hu
    by_cases hut : u = t
    · rw [hut, goes_self] at hu
      cases hu
      exact hi
    · exact h.known u j (goes_ne hut ▸ hu)
  · obtain rfl : t = u := Option.some.inj hu
    change ((s.goes t (.entered i)).phase t).releasing? = some j at hj
    rw [goes_self] at hj
    cases hj
  · rw [hothers u, h.balanced u, hfree]
    change _ = if some t = some u then 1 - ((s.goes t (.entered i)).phase u).claims else 0
    by_cases hut : u = t
    · rw [hut, goes_self, if_pos rfl]
      rfl
    · have hne : ¬ some t = some u := fun heq => hut (Option.some.inj heq).symm
      rw [if_neg hne, if_neg (by simp)]

/-- The owner leaves the gate at the end of a call. -/
theorem Inv.leave (h : Inv log s) (howner : s.gate.owner = some t)
    (hafter : (s.gate.depth = 1 ∧ s.depth = 0 ∧ s.total = 0 ∧ s.handle = false) ∨
      (1 < s.gate.depth ∧ s.depth = s.gate.depth - 1 ∧ s.total = s.depth ∧ s.handle = true))
    (hbalance : balance t (e :: log) = s.gate.depth - 1)
    (hothers : ∀ u, u ≠ t → balance u (e :: log) = balance u log) :
    Inv (e :: log) (s.leave t) := by
  rcases hafter with ⟨hgate, hdepth, htotal, hhandle⟩ | ⟨hgate, hdepth, htotal, hhandle⟩
  · have hfree : s.gate.release t = { s.gate with owner := none, depth := s.gate.depth - 1 } := by
      unfold ReentrantGate.release
      rw [if_neg (not_not.mpr howner), if_pos (by omega)]
    have hidle : (s.phase t).waits = false := by
      have hfits := h.fits
      rw [howner] at hfits
      cases hp : s.phase t <;> simp_all [Fits, LockPhase.waits]
    unfold LockState.leave
    rw [hfree]
    refine
      { nodup := h.nodup
        queued := fun u => ?_
        inside := fun u hu => ?_
        fits := ⟨by simp only; omega, hdepth, htotal, hhandle⟩
        counts := h.counts
        unused := h.unused
        known := fun u j hu => ?_
        held := fun u j hu => by cases hu
        balanced := fun u => ?_ }
    · refine (h.queued u).trans ?_
      change _ ↔ ((s.goes t .idle).phase u).waits = true
      by_cases hut : u = t
      · rw [hut, goes_self, hidle]
        rfl
      · rw [goes_ne hut]
    · change ((s.goes t .idle).phase u).inside = true at hu
      by_cases hut : u = t
      · rw [hut, goes_self] at hu
        cases hu
      · have := (h.inside u (goes_ne hut ▸ hu)).symm.trans howner
        exact absurd (Option.some.inj this) hut
    · change ((s.goes t .idle).phase u).instance? = some j at hu
      by_cases hut : u = t
      · rw [hut, goes_self] at hu
        cases hu
      · exact h.known u j (goes_ne hut ▸ hu)
    · change _ = if none = some u then _ else 0
      rw [if_neg (by simp)]
      by_cases hut : u = t
      · rw [hut, hbalance]
        omega
      · have hne : ¬ some t = some u := fun heq => hut (Option.some.inj heq).symm
        rw [hothers u hut, h.balanced u, howner, if_neg hne]
  · have hkept : s.gate.release t = { s.gate with depth := s.gate.depth - 1 } := by
      unfold ReentrantGate.release
      rw [if_neg (not_not.mpr howner), if_neg (by omega)]
    unfold LockState.leave
    rw [hkept]
    refine h.own howner howner rfl rfl rfl ?_ rfl h.counts h.unused (fun i hi => by cases hi)
      (fun i hi => by cases hi) ?_ hothers
    · exact ⟨hdepth.symm, htotal, by change 0 < s.depth; omega, hhandle⟩
    · rw [hbalance]
      exact (Int.sub_zero _).symm

/-- What a thread that is inside says of the books. -/
theorem Inv.at (h : Inv log s) (hinside : (s.phase t).inside = true) :
    s.gate.owner = some t ∧
      Fits s.gate.depth s.depth s.total s.handle (some (s.phase t)) ∧
      balance t log = s.gate.depth - (s.phase t).claims := by
  have howner := h.inside t hinside
  have hfits := h.fits
  rw [howner, Option.map_some] at hfits
  exact ⟨howner, hfits, by rw [h.balanced t, if_pos howner]⟩

theorem balance_quiet (u : τ) : balance u (.quiet :: log) = balance u log := rfl

theorem balance_acquired (t : τ) : balance t (.acquired t :: log) = balance t log + 1 := by
  simp [balance]

theorem balance_released (t : τ) : balance t (.released t :: log) = balance t log - 1 := by
  simp [balance]

theorem balance_acquired_ne {u : τ} (hu : u ≠ t) :
    balance u (.acquired t :: log) = balance u log := by
  simp [balance, hu.symm]

theorem balance_released_ne {u : τ} (hu : u ≠ t) :
    balance u (.released t :: log) = balance u log := by
  simp [balance, hu.symm]

/-- A step of the owner that counts nothing and tells nothing. -/
theorem Inv.onward {p : LockPhase} {depth : Int} {handle : Bool} (h : Inv log s)
    (howner : s.gate.owner = some t) (hwaits : p.waits = false)
    (hfits : Fits s.gate.depth depth s.total handle (some p))
    (hsame : p.instance? = (s.phase t).instance?) (hclaims : p.claims = (s.phase t).claims)
    (hheld : p.releasing? = none ∨ p.releasing? = (s.phase t).releasing?) :
    Inv (.quiet :: log) { s.goes t p with depth, handle } := by
  refine h.own howner howner rfl rfl hwaits hfits rfl h.counts h.unused (fun j hj => ?_)
    (fun j hj => ?_) ?_ fun _ _ => rfl
  · exact h.known t j (hsame ▸ hj)
  · rcases hheld with hnone | hheld
    · rw [hnone] at hj
      cases hj
    · exact h.held t j howner (hheld ▸ hj)
  · change balance t log = s.gate.depth - p.claims
    rw [h.balanced t, if_pos howner, hclaims]

/-- A step of the owner that sets the acquisitions of its instance. -/
theorem Inv.recount {p : LockPhase} {n : Int} (h : Inv log s) (howner : s.gate.owner = some t)
    (hinstance : (s.phase t).instance? = some i) (hn : 0 ≤ n) (hwaits : p.waits = false)
    (hsame : ∀ j, p.instance? = some j → j = i) (hnone : p.releasing? = none)
    (hfits : Fits s.gate.depth s.depth (s.total - s.acquisitions i + n) s.handle (some p))
    (hbalance : balance t (e :: log) = s.gate.depth - p.claims)
    (hothers : ∀ u, u ≠ t → balance u (e :: log) = balance u log) :
    Inv (e :: log) ((s.goes t p).count i n) := by
  have hi : i < s.instances := h.known t i hinstance
  have htotal : ((s.goes t p).count i n).total = s.total - s.acquisitions i + n :=
    total_count (s := s.goes t p) hi
  refine h.own howner howner rfl rfl hwaits (by rw [htotal]; exact hfits) rfl (fun j => ?_)
    (fun j hj => ?_) (fun j hj => hsame j hj ▸ hi) (fun j hj => ?_) hbalance hothers
  · change 0 ≤ Function.update s.acquisitions i n j
    by_cases hij : j = i
    · rw [hij, Function.update_self]
      exact hn
    · rw [Function.update_of_ne hij]
      exact h.counts j
  · change s.instances ≤ j at hj
    change Function.update s.acquisitions i n j = 0
    rw [Function.update_of_ne (by omega)]
    exact h.unused j hj
  · rw [hnone] at hj
    cases hj

/-- The owner passes the gate again. -/
theorem Inv.fast (h : Inv log s) (hphase : s.phase t = .idle) (hi : i < s.instances)
    (howner : s.gate.owner = some t) :
    Inv (.quiet :: log)
      { s.goes t (.entered i) with gate := { s.gate with depth := s.gate.depth + 1 } } := by
  have hfits := h.fits
  rw [howner, Option.map_some, hphase] at hfits
  obtain ⟨hgate, htotal, hdepth, hhandle⟩ := hfits
  have hbalance : balance t log = s.gate.depth - (s.phase t).claims := by
    rw [h.balanced t, if_pos howner]
  refine h.own howner howner rfl rfl rfl ?_ rfl h.counts h.unused (fun j hj => ?_)
    (fun j hj => by cases hj) ?_ fun _ _ => rfl
  · refine ⟨?_, htotal, hdepth.le, ?_⟩
    · change s.gate.depth + 1 = s.depth + 1
      rw [hgate]
    · change s.handle = decide (0 < s.depth)
      simp [hhandle, hdepth]
  · cases hj
    exact hi
  · rw [balance_quiet, hbalance, hphase]
    simp [LockPhase.claims]

theorem Step.inv (h : Inv log s) (hstep : Step s e s') : Inv (e :: log) s' := by
  cases hstep with
  | create =>
    exact
      { h with
        fits := by
          have hnew : s.acquisitions s.instances = 0 := h.unused _ le_rfl
          have htotal :
              ({ s with instances := s.instances + 1 } : LockState τ).total = s.total := by
            simp [LockState.total, Finset.sum_range_succ, hnew]
          rw [htotal]
          exact h.fits
        unused := fun i hi => h.unused i (by simp only at hi; omega)
        known := fun u i hu => Nat.lt_succ_of_lt (h.known u i hu)
        held := h.held }
  | reject hphase => exact { h with }
  | @fast t i hphase hi howner =>
    exact h.fast hphase hi howner
  | @acquire t i zero expired hphase hi =>
    have hnot : t ∉ s.gate.waiters := by
      rw [h.queued t, hphase]
      simp [LockPhase.waits]
    rcases s.gate.acquire_cases hnot zero expired with
      ⟨howner, heq⟩ | ⟨hfree, hempty, heq⟩ | ⟨howner, heq⟩ | ⟨howner, heq⟩
    · rw [heq]
      exact h.fast hphase hi howner
    · rw [heq]
      exact h.grant hfree List.nodup_nil List.not_mem_nil
        (fun u _ => by rw [hempty]) hi fun _ => rfl
    · rw [heq]
      exact h.requeue howner rfl h.nodup (iff_of_false hnot Bool.false_ne_true)
        (fun _ _ => Iff.rfl) (fun j hj => by cases hj) fun _ => rfl
    · rw [heq]
      refine h.requeue howner rfl ?_ ?_ (fun u hu => ?_) (fun j hj => ?_) fun _ => rfl
      · rw [← List.concat_eq_append]
        exact h.nodup.concat hnot
      · exact iff_of_true (by simp) rfl
      · simp [hu]
      · cases hj
        exact hi
  | @poll t i expired hphase =>
    have hmem : t ∈ s.gate.waiters := by
      rw [h.queued t, hphase]
      rfl
    have hi : i < s.instances := h.known t i (by rw [hphase]; rfl)
    have hnodup := h.nodup.erase t
    have hout : t ∉ s.gate.waiters.erase t := h.nodup.not_mem_erase
    have hothers : ∀ u, u ≠ t → (u ∈ s.gate.waiters.erase t ↔ u ∈ s.gate.waiters) :=
      fun u hu => List.mem_erase_of_ne hu
    have howner : s.gate.owner ≠ some t := by
      intro howner
      have hfits := h.fits
      rw [howner, Option.map_some, hphase] at hfits
      exact hfits
    rcases s.gate.poll_cases t expired with heq | heq | ⟨hfree, -, heq⟩
    · rw [heq]
      exact h.requeue howner rfl hnodup (iff_of_false hout Bool.false_ne_true) hothers
        (fun j hj => by cases hj) fun _ => rfl
    · rw [heq]
      refine h.requeue howner rfl h.nodup (iff_of_true hmem rfl) (fun _ _ => Iff.rfl)
        (fun j hj => ?_) fun _ => rfl
      cases hj
      exact hi
    · rw [heq]
      exact h.grant hfree hnodup hout hothers hi fun _ => rfl
  | @deepen t i hphase hdepth =>
    obtain ⟨howner, hfits, -⟩ := h.at (t := t) (by rw [hphase]; rfl)
    rw [hphase] at hfits
    obtain ⟨hgate, htotal, hnonneg, hhandle⟩ := hfits
    have hpos : 0 < s.depth := by omega
    have hopen : s.handle = true := by
      rw [hhandle]
      exact decide_eq_true hpos
    exact h.onward howner rfl ⟨hgate, by omega, by omega, hopen⟩ (by rw [hphase]; rfl)
      (by rw [hphase]; rfl) (.inl rfl)
  | @again t i hphase =>
    obtain ⟨howner, hfits, hbalance⟩ := h.at (t := t) (by rw [hphase]; rfl)
    rw [hphase] at hfits hbalance
    obtain ⟨hgate, htotal, hdepth, hhandle⟩ := hfits
    refine h.recount howner (by rw [hphase]; rfl) (by have := h.counts i; omega) rfl
      (fun j hj => by cases hj) rfl ⟨hgate, by omega, by omega, hhandle⟩ ?_ fun u hu => ?_
    · rw [balance_acquired, hbalance]
      simp [LockPhase.claims]
    · exact balance_acquired_ne hu
  | @openFile t i hphase hdepth | @openFails t i hphase hdepth =>
    obtain ⟨howner, hfits, -⟩ := h.at (t := t) (by rw [hphase]; rfl)
    rw [hphase] at hfits
    obtain ⟨hgate, htotal, -, hhandle⟩ := hfits
    have hclosed : s.handle = false := by
      rw [hhandle, hdepth]
      rfl
    exact h.onward howner rfl ⟨by omega, hdepth, by omega, hclosed⟩ (by rw [hphase]; rfl)
      (by rw [hphase]; rfl) (.inl rfl)
  | retry hphase => exact { h with }
  | @lockFile t i hphase | @lockFails t i hphase =>
    obtain ⟨howner, hfits, -⟩ := h.at (t := t) (by rw [hphase]; rfl)
    rw [hphase] at hfits
    exact h.onward howner rfl hfits (by rw [hphase]; rfl) (by rw [hphase]; rfl) (.inl rfl)
  | @store t i hphase =>
    obtain ⟨howner, hfits, -⟩ := h.at (t := t) (by rw [hphase]; rfl)
    rw [hphase] at hfits
    obtain ⟨hgate, hdepth, htotal, -⟩ := hfits
    exact h.onward howner rfl ⟨hgate, hdepth, htotal, rfl⟩ (by rw [hphase]; rfl)
      (by rw [hphase]; rfl) (.inl rfl)
  | @first t i hphase =>
    obtain ⟨howner, hfits, -⟩ := h.at (t := t) (by rw [hphase]; rfl)
    rw [hphase] at hfits
    obtain ⟨hgate, -, htotal, hhandle⟩ := hfits
    exact h.onward howner rfl ⟨hgate, rfl, htotal, hhandle⟩ (by rw [hphase]; rfl)
      (by rw [hphase]; rfl) (.inl rfl)
  | @done t i hphase =>
    obtain ⟨howner, hfits, hbalance⟩ := h.at (t := t) (by rw [hphase]; rfl)
    rw [hphase] at hfits hbalance
    obtain ⟨hgate, hdepth, htotal, hhandle⟩ := hfits
    have hzero : s.acquisitions i = 0 := by rw [h.acquisitions_eq_zero htotal]
    refine h.recount howner (by rw [hphase]; rfl) Int.one_nonneg rfl
      (fun j hj => by cases hj) rfl ⟨by omega, by omega, by omega, hhandle⟩ ?_ fun u hu => ?_
    · rw [balance_acquired, hbalance]
      simp [LockPhase.claims]
    · exact balance_acquired_ne hu
  | @fail t i hphase =>
    obtain ⟨howner, hfits, hbalance⟩ := h.at (t := t) (by rw [hphase]; rfl)
    rw [hphase] at hfits hbalance
    exact h.leave howner (.inl hfits) hbalance fun _ _ => rfl
  | @release t i hphase hi hcount hdepth =>
    refine h.aside (by rw [hphase]; rfl) (by rw [hphase]; rfl) rfl rfl (fun j hj => ?_)
      (fun j hj => ?_) fun _ => rfl
    · cases hj
      exact hi
    · cases hj
      exact hcount
  | unheld hphase => exact { h with }
  | @ensureOwned t i hphase howner =>
    have hfits := h.fits
    rw [howner, Option.map_some, hphase] at hfits
    exact h.onward howner rfl hfits (by rw [hphase]; rfl) (by rw [hphase]; rfl)
      (.inr (by rw [hphase]; rfl))
  | @unowned t i hphase howner =>
    exact h.aside (by rw [hphase]; rfl) (by rw [hphase]; rfl) rfl rfl (fun j hj => by cases hj)
      (fun j hj => by cases hj) fun _ => rfl
  | @drop t i hphase =>
    obtain ⟨howner, hfits, hbalance⟩ := h.at (t := t) (by rw [hphase]; rfl)
    rw [hphase] at hfits hbalance
    obtain ⟨hgate, htotal, hdepth, hhandle⟩ := hfits
    have hpos : 0 < s.acquisitions i := h.held t i howner (by rw [hphase]; rfl)
    exact h.recount howner (by rw [hphase]; rfl) (by omega) rfl (fun j hj => by cases hj; rfl) rfl
      ⟨hgate, by omega, hdepth, hhandle⟩ hbalance fun _ _ => rfl
  | @lower t i hphase =>
    obtain ⟨howner, hfits, -⟩ := h.at (t := t) (by rw [hphase]; rfl)
    rw [hphase] at hfits
    obtain ⟨hgate, htotal, hdepth, hhandle⟩ := hfits
    exact h.onward howner rfl ⟨by omega, htotal, by omega, hhandle⟩ (by rw [hphase]; rfl)
      (by rw [hphase]; rfl) (.inl rfl)
  | @keep t i hphase hdepth =>
    obtain ⟨howner, hfits, hbalance⟩ := h.at (t := t) (by rw [hphase]; rfl)
    rw [hphase] at hfits hbalance
    obtain ⟨hgate, htotal, hnonneg, hhandle⟩ := hfits
    refine h.leave howner (.inr ⟨by omega, by omega, htotal, hhandle⟩) ?_ fun u hu => ?_
    · rw [balance_released, hbalance]
      simp [LockPhase.claims]
    · exact balance_released_ne hu
  | @take t i hphase hdepth hhandle =>
    obtain ⟨howner, hfits, -⟩ := h.at (t := t) (by rw [hphase]; rfl)
    rw [hphase] at hfits
    obtain ⟨hgate, htotal, -, -⟩ := hfits
    exact h.onward howner rfl ⟨by omega, hdepth, by omega, rfl⟩ (by rw [hphase]; rfl)
      (by rw [hphase]; rfl) (.inl rfl)
  | @inconsistent t i hphase hdepth hhandle =>
    obtain ⟨-, hfits, -⟩ := h.at (t := t) (by rw [hphase]; rfl)
    rw [hphase] at hfits
    rw [hhandle] at hfits
    cases hfits.2.2.2
  | @close t i hphase =>
    obtain ⟨howner, hfits, hbalance⟩ := h.at (t := t) (by rw [hphase]; rfl)
    rw [hphase] at hfits hbalance
    obtain ⟨hgate, hdepth, htotal, hhandle⟩ := hfits
    refine h.leave howner (.inl ⟨hgate, hdepth, htotal, hhandle⟩) ?_ fun u hu => ?_
    · rw [balance_released, hbalance]
      simp [LockPhase.claims]
    · exact balance_released_ne hu

theorem Run.inv (h : Run log s) : Inv log s := by
  induction h with
  | start => exact inv_start
  | step _ hstep ih => exact hstep.inv ih

/-! ## What single steps change -/

/-- The books of a path that no thread has locked. -/
def Books.free : Books τ :=
  { owner := none, gateDepth := 0, depth := 0, handle := false, acquisitions := fun _ => 0 }

/-- Where the gate is free, nothing is booked. -/
theorem Inv.free (h : Inv log s) (hfree : s.gate.owner = none) : s.books = Books.free := by
  have hfits := h.fits
  rw [hfree] at hfits
  obtain ⟨hgate, hdepth, htotal, hhandle⟩ := hfits
  unfold LockState.books Books.free
  rw [hfree, hgate, hdepth, hhandle, h.acquisitions_eq_zero htotal]

/-- A free gate is granted to the head of the queue, or where nobody waits. -/
theorem Step.grants (h : Inv log s) (hstep : Step s (.granted t) s') :
    s.gate.owner = none ∧ (s.gate.waiters.head? = some t ∨ s.gate.waiters = []) := by
  generalize he : LockEvent.granted t = e at hstep
  cases hstep with
  | @acquire u i zero expired hphase hi =>
    have hnot : u ∉ s.gate.waiters := by
      rw [h.queued u, hphase]
      exact Bool.false_ne_true
    rcases s.gate.acquire_cases hnot zero expired with
      ⟨-, heq⟩ | ⟨hfree, hempty, -⟩ | ⟨-, heq⟩ | ⟨-, heq⟩
    · rw [heq] at he
      cases he
    · exact ⟨hfree, .inr hempty⟩
    · rw [heq] at he
      cases he
    · rw [heq] at he
      cases he
  | @poll u i expired hphase =>
    rcases s.gate.poll_cases u expired with heq | heq | ⟨hfree, hhead, heq⟩
    · rw [heq] at he
      cases he
    · rw [heq] at he
      cases he
    · rw [heq] at he
      cases he
      exact ⟨hfree, .inl hhead⟩
  | _ => cases he

/-- The books of a path that no thread has locked, in a call that was granted the gate. -/
def Books.claimed (t : τ) : Books τ :=
  { owner := some t, gateDepth := 1, depth := 0, handle := false, acquisitions := fun _ => 0 }

/-- A call to acquire that fails changes nothing, or gives back the gate it was granted. Its
waiter is gone. -/
theorem Step.fails (h : Inv log s) (hstep : Step s (.failed t) s') :
    t ∉ s'.gate.waiters ∧
      (s'.books = s.books ∨ s.books = Books.claimed t ∧ s'.books = Books.free) := by
  have hwaits : (s'.phase t).waits = false ∧
      (s'.books = s.books ∨ s.books = Books.claimed t ∧ s'.gate.owner = none) := by
    generalize he : LockEvent.failed t = e at hstep
    cases hstep with
    | @reject u hphase =>
      cases he
      exact ⟨by rw [hphase]; rfl, .inl rfl⟩
    | @acquire u i zero expired hphase hi =>
      have hnot : u ∉ s.gate.waiters := by
        rw [h.queued u, hphase]
        exact Bool.false_ne_true
      rcases s.gate.acquire_cases hnot zero expired with
        ⟨-, heq⟩ | ⟨-, -, heq⟩ | ⟨-, heq⟩ | ⟨-, heq⟩ <;> rw [heq] at he ⊢ <;> cases he
      exact ⟨congrArg LockPhase.waits (goes_self (p := .idle)), .inl rfl⟩
    | @poll u i expired hphase =>
      rcases s.gate.poll_cases u expired with heq | heq | ⟨-, -, heq⟩ <;>
        rw [heq] at he ⊢ <;> cases he
      exact ⟨congrArg LockPhase.waits (goes_self (p := .idle)), .inl rfl⟩
    | @fail u i hphase =>
      cases he
      obtain ⟨howner, hfits, -⟩ := h.at (t := t) (by rw [hphase]; rfl)
      rw [hphase] at hfits
      obtain ⟨hgate, hdepth, htotal, hhandle⟩ := hfits
      refine ⟨congrArg LockPhase.waits (goes_self (p := .idle)), .inr ⟨?_, ?_⟩⟩
      · unfold LockState.books Books.claimed
        rw [howner, hgate, hdepth, hhandle, h.acquisitions_eq_zero htotal]
      · change (s.gate.release t).owner = none
        unfold ReentrantGate.release
        rw [if_neg (not_not.mpr howner), if_pos (by omega)]
    | _ => cases he
  have hinv := hstep.inv h
  refine ⟨?_, hwaits.2.imp_right fun hback => ⟨hback.1, hinv.free hback.2⟩⟩
  rw [hinv.queued t, hwaits.1]
  exact Bool.false_ne_true

theorem eq_of_goes {u : τ} {p : LockPhase} (h : (s.goes u p).phase t ≠ s.phase t) : u = t :=
  by_contra fun hne => h (goes_ne (Ne.symm hne))

/-- A thread that owns the gate neither before nor after its step changes no books. -/
theorem Step.outside (h : Inv log s) (hstep : Step s e s') (hmoved : s'.phase t ≠ s.phase t)
    (hbefore : s.gate.owner ≠ some t) (hafter : s'.gate.owner ≠ some t) :
    s'.books = s.books := by
  have hinside : (s.phase t).inside ≠ true := fun hin => hbefore (h.inside t hin)
  cases hstep with
  | create | reject | retry | unheld => exact absurd rfl hmoved
  | @acquire u i zero expired hphase hi =>
    obtain rfl := eq_of_goes hmoved
    have hnot : u ∉ s.gate.waiters := by
      rw [h.queued u, hphase]
      exact Bool.false_ne_true
    rcases s.gate.acquire_cases hnot zero expired with
      ⟨howner, -⟩ | ⟨-, -, heq⟩ | ⟨-, heq⟩ | ⟨-, heq⟩
    · exact absurd howner hbefore
    · rw [heq] at hafter
      exact absurd rfl hafter
    · rw [heq]
      rfl
    · rw [heq]
      rfl
  | @poll u i expired hphase =>
    obtain rfl := eq_of_goes hmoved
    rcases s.gate.poll_cases u expired with heq | heq | ⟨-, -, heq⟩
    · rw [heq]
      rfl
    · rw [heq]
      rfl
    · rw [heq] at hafter
      exact absurd rfl hafter
  | fast _ _ howner | ensureOwned _ howner =>
    obtain rfl := eq_of_goes hmoved
    exact absurd howner hbefore
  | release | unowned => rfl
  | deepen hphase | again hphase | openFile hphase | openFails hphase | lockFile hphase
  | lockFails hphase | store hphase | first hphase | done hphase | fail hphase | drop hphase
  | lower hphase | keep hphase | take hphase | inconsistent hphase | close hphase =>
    obtain rfl := eq_of_goes hmoved
    rw [hphase] at hinside
    exact absurd rfl hinside

omit [DecidableEq τ] in
theorem event_ne_refused (a : Answer) (u : τ) : a.event u ≠ .refused t := by
  cases a <;> exact fun h => by cases h

omit [DecidableEq τ] in
theorem event_ne_released (a : Answer) (u : τ) : a.event u ≠ .released t := by
  cases a <;> exact fun h => by cases h

/-- A release that raises changes no books. -/
theorem Step.refuses (hstep : Step s (.refused t) s') : s'.books = s.books := by
  generalize he : LockEvent.refused t = e at hstep
  cases hstep with
  | unheld | unowned => rfl
  | acquire | poll => exact absurd he.symm (event_ne_refused _ _)
  | _ => cases he

/-- Only the owner releases. -/
theorem Step.releases (h : Inv log s) (hstep : Step s (.released t) s') :
    s.gate.owner = some t := by
  generalize he : LockEvent.released t = e at hstep
  cases hstep with
  | keep hphase | inconsistent hphase | close hphase =>
    cases he
    exact h.inside t (by rw [hphase]; rfl)
  | acquire | poll => exact absurd he.symm (event_ne_released _ _)
  | _ => cases he

/-! ## Bookkeeping -/

/-- Whether a thread holds a lock of the path, or is at what only the owner of the gate does. -/
def Engaged (log : List (LockEvent τ)) (s : LockState τ) (t : τ) : Prop :=
  0 < balance t log ∨ (s.phase t).inside = true

/-- Whether the owner of the gate is between its calls, or at what changes no books yet. -/
def Calm (s : LockState τ) : Prop := ∀ t, s.gate.owner = some t → (s.phase t).settled = true

/-- What holds of the books in a state and of what a step makes of them. -/
structure Bookkeeping (log : List (LockEvent τ)) (s : LockState τ) : Prop where
  /-- At most one thread is the owner. -/
  exclusive : ∀ t u, Engaged log s t → Engaged log s u → t = u
  /-- Between the owner's calls the counts agree. -/
  agree : Calm s → s.gate.depth = s.depth ∧ s.total = s.depth ∧ (s.handle = true ↔ 0 < s.depth)
  /-- Within them they are apart by what the call has yet to count. -/
  fits : Fits s.gate.depth s.depth s.total s.handle (s.gate.owner.map s.phase)
  /-- The queue holds the waiters, each once. -/
  queue : s.gate.waiters.Nodup ∧ ∀ t, t ∈ s.gate.waiters ↔ (s.phase t).waits = true
  /-- A free gate goes to the head of the queue, or where nobody waits. -/
  granted : ∀ t s', Step s (.granted t) s' → s.books = Books.free ∧
    (s.gate.waiters.head? = some t ∨ s.gate.waiters = [])
  /-- A call to acquire that fails leaves the books as it found them. -/
  failed : ∀ t s', Step s (.failed t) s' → t ∉ s'.gate.waiters ∧
    (s'.books = s.books ∨ s.books = Books.claimed t ∧ s'.books = Books.free)
  /-- So does a release that raises, and one that does not is the owner's. -/
  refused : ∀ t s', Step s (.refused t) s' → s'.books = s.books
  released : ∀ t s', Step s (.released t) s' → s.gate.owner = some t
  /-- Only the owner changes the books. -/
  outside : ∀ t e s', Step s e s' → s'.phase t ≠ s.phase t → s.gate.owner ≠ some t →
    s'.gate.owner ≠ some t → s'.books = s.books

theorem Inv.owner_of_engaged (h : Inv log s) (ht : Engaged log s t) : s.gate.owner = some t := by
  rcases ht with hbalance | hinside
  · by_contra howner
    rw [h.balanced t, if_neg howner] at hbalance
    exact lt_irrefl 0 hbalance
  · exact h.inside t hinside

theorem Inv.agree (h : Inv log s) (hcalm : Calm s) :
    s.gate.depth = s.depth ∧ s.total = s.depth ∧ (s.handle = true ↔ 0 < s.depth) := by
  have hfits := h.fits
  cases howner : s.gate.owner with
  | none =>
    rw [howner] at hfits
    obtain ⟨hgate, hdepth, htotal, hhandle⟩ := hfits
    exact ⟨by omega, by omega, by simp [hhandle, hdepth]⟩
  | some t =>
    rw [howner, Option.map_some] at hfits
    have hsettled := hcalm t howner
    cases hphase : s.phase t <;> rw [hphase] at hfits hsettled <;> try cases hsettled
    all_goals
      obtain ⟨hgate, htotal, hdepth, hhandle⟩ := hfits
      exact ⟨hgate, htotal, iff_of_true hhandle hdepth⟩

/-- The books of a path are kept over every run of any threads on any instances. -/
theorem lock_bookkeeping (hrun : Run log s) : Bookkeeping log s := by
  have h := hrun.inv
  exact
    { exclusive := fun t u ht hu =>
        Option.some.inj ((h.owner_of_engaged ht).symm.trans (h.owner_of_engaged hu))
      agree := h.agree
      fits := h.fits
      queue := ⟨h.nodup, h.queued⟩
      granted := fun t s' hstep =>
        ⟨h.free (hstep.grants h).1, (hstep.grants h).2⟩
      failed := fun t s' hstep => hstep.fails h
      refused := fun t s' hstep => hstep.refuses
      released := fun t s' hstep => hstep.releases h
      outside := fun t e s' hstep => hstep.outside h }

/-- A run in which a thread acquires a lock. -/
theorem sample_held :
    ∃ (log : List (LockEvent Nat)) (s : LockState Nat), Run log s ∧ s.depth = 1 := by
  have hcreated := Run.start.step (Step.create (s := ({} : LockState Nat)))
  have hentered := hcreated.step (.acquire (t := 0) (i := 0) false false rfl Nat.one_pos)
  have hopened := hentered.step (.openFile (t := 0) rfl rfl)
  have hlocked := hopened.step (.lockFile (t := 0) rfl)
  have hstored := hlocked.step (.store (t := 0) rfl)
  have hcounted := hstored.step (.first (t := 0) rfl)
  exact ⟨_, _, hcounted.step (.done (t := 0) rfl), rfl⟩

theorem sample_bookkeeping :
    ∃ (log : List (LockEvent Nat)) (s : LockState Nat), Bookkeeping log s ∧ s.depth = 1 := by
  obtain ⟨log, s, hrun, hdepth⟩ := sample_held
  exact ⟨log, s, lock_bookkeeping hrun, hdepth⟩

/-- Within a call the counts are apart: the gate is granted before the path's depth is set. -/
theorem apart_within_acquire :
    ¬ ∀ (log : List (LockEvent Nat)) (s : LockState Nat), Run log s → s.gate.depth = s.depth := by
  intro hall
  have hcreated := Run.start.step (Step.create (s := ({} : LockState Nat)))
  have hentered := hcreated.step (.acquire (t := 0) (i := 0) false false rfl Nat.one_pos)
  have hsame := hall _ _ hentered
  exact absurd hsame Int.one_ne_zero

end Locking

end Orqalis
