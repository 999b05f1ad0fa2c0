import Orqalis.Domain.Base
import Orqalis.Lib.System
import Mathlib.Logic.Function.Basic

/-!
# Controller leases

A session that drives a run holds its controller lease until it is rolled back or closed.
The lease is two things: an entry of the process's table of owners, which keeps the other
sessions of the process away, and a file lock, which keeps the other processes away. An
attempt takes the first, then the gate of the second, then the lock itself; the exits give
them back in the other order. The file of the lock is the capsule's of the run; a run has
one capsule and a capsule one run, so it goes by the run here.

An attempt may end in an exception of the file system. The lock cleans up behind it, the
table of owners does not.
-/

namespace Orqalis

open Lib.System Relation

/-! ## The state -/

/-- What a session is at. An attempt has claimed the owner entry and then entered the gate;
an exit has let go of a lock and not yet of its entry. -/
inductive LeasePhase
  | idle
  | claimed (runId : UUID)
  | gated (runId : UUID)
  | exiting (closing : Bool)
  | unlocked (runId : UUID) (closing : Bool)
  | closed
deriving DecidableEq, Repr

/-- A session's part: the runs of `_controller_locks`, in order. -/
structure Lessee where
  phase : LeasePhase := .idle
  controllerLocks : List UUID := []
deriving DecidableEq, Repr

/-- A process's part: the owner entry, and the file lock's gate, with its thread, and depth. -/
structure Slot (ι θ : Type) where
  owner : Option ι := none
  gate : Option (θ × Nat) := none
  depth : Nat := 0

/-- The sessions, what each process keeps of each run, and which one holds the file's lock. -/
structure Leases (ι θ π : Type) where
  lessees : ι → Lessee
  slots : π → UUID → Slot ι θ
  holder : UUID → Option π

/-- Before any session. -/
def Leases.initial (ι θ π : Type) : Leases ι θ π where
  lessees := fun _ => {}
  slots := fun _ _ => {}
  holder := fun _ => none

namespace Slot

variable {ι θ : Type} [DecidableEq ι] [DecidableEq θ]

/-- Set the owner entry. -/
def claim (i : ι) (s : Slot ι θ) : Slot ι θ := { s with owner := some i }

/-- Remove the owner entry, if it is the session's. -/
def disown (i : ι) (s : Slot ι θ) : Slot ι θ :=
  if s.owner = some i then { s with owner := none } else s

/-- Enter the gate without waiting. -/
def enterGate (t : θ) (s : Slot ι θ) : Option (Slot ι θ) :=
  match s.gate with
  | none => some { s with gate := some (t, 1) }
  | some (t', n) => if t' = t then some { s with gate := some (t, n + 1) } else none

/-- Leave the gate. -/
def leaveGate (s : Slot ι θ) : Slot ι θ :=
  match s.gate with
  | some (t, n + 2) => { s with gate := some (t, n + 1) }
  | _ => { s with gate := none }

/-- Let go of the file lock once. -/
def release (s : Slot ι θ) : Slot ι θ := leaveGate { s with depth := s.depth - 1 }

end Slot

/-! ## The steps -/

section Step

variable {ι θ π : Type} [DecidableEq ι] [DecidableEq θ] [DecidableEq π]
  (thread : ι → θ) (process : θ → π)

/-- A session's process's part of a run. -/
def Leases.slot (W : Leases ι θ π) (i : ι) (r : UUID) : Slot ι θ := W.slots (process (thread i)) r

/-- Change a session's part, its process's and the holder of one run's lock. -/
def Leases.put (W : Leases ι θ π) (i : ι) (r : UUID) (l : Lessee) (s : Slot ι θ)
    (h : Option π) : Leases ι θ π where
  lessees := Function.update W.lessees i l
  slots := fun p q => if p = process (thread i) ∧ q = r then s else W.slots p q
  holder := Function.update W.holder r h

/-- Change what a session is at. -/
def Leases.to (W : Leases ι θ π) (i : ι) (phase : LeasePhase) : Leases ι θ π :=
  { W with lessees := Function.update W.lessees i { W.lessees i with phase } }

/-- One step of a session, or the stop of a process; `raises` allows the file lock to end an
attempt in another exception than a timeout. -/
inductive Leases.Step (raises : Prop) : Leases ι θ π → Leases ι θ π → Prop
  /-- An attempt finds the owner entry free, or its own, and sets it. -/
  | claim {W} (i : ι) (r : UUID) (hphase : (W.lessees i).phase = .idle)
      (hnew : r ∉ (W.lessees i).controllerLocks)
      (howner : ∀ j, (W.slot thread process i r).owner = some j → j = i) :
      Step raises W (W.put thread process i r { W.lessees i with phase := .claimed r }
        ((W.slot thread process i r).claim i) (W.holder r))
  /-- An attempt finds the owner entry of another session and answers no. -/
  | refuse {W} (i j : ι) (r : UUID) (hphase : (W.lessees i).phase = .idle)
      (howner : (W.slot thread process i r).owner = some j) (hne : j ≠ i) : Step raises W W
  /-- Enter the gate of the file lock. -/
  | enter {W} (i : ι) {r : UUID} {s : Slot ι θ} (hphase : (W.lessees i).phase = .claimed r)
      (hgate : (W.slot thread process i r).enterGate (thread i) = some s) :
      Step raises W (W.put thread process i r { W.lessees i with phase := .gated r } s
        (W.holder r))
  /-- The gate is taken, or busy: the attempt times out. -/
  | gateTimeout {W} (i : ι) {r : UUID} (hphase : (W.lessees i).phase = .claimed r) :
      Step raises W (W.put thread process i r { W.lessees i with phase := .idle }
        ((W.slot thread process i r).disown i) (W.holder r))
  /-- The thread holds the lock already. -/
  | reenter {W} (i : ι) {r : UUID} (hphase : (W.lessees i).phase = .gated r)
      (hdepth : (W.slot thread process i r).depth ≠ 0) :
      Step raises W (W.put thread process i r
        { phase := .idle, controllerLocks := (W.lessees i).controllerLocks ++ [r] }
        { W.slot thread process i r with depth := (W.slot thread process i r).depth + 1 }
        (W.holder r))
  /-- Lock the file. -/
  | lock {W} (i : ι) {r : UUID} (hphase : (W.lessees i).phase = .gated r)
      (hdepth : (W.slot thread process i r).depth = 0) (hfree : W.holder r = none) :
      Step raises W (W.put thread process i r
        { phase := .idle, controllerLocks := (W.lessees i).controllerLocks ++ [r] }
        { W.slot thread process i r with depth := 1 } (some (process (thread i))))
  /-- Another process has the file locked: the attempt times out. -/
  | fileTimeout {W} (i : ι) {r : UUID} (hphase : (W.lessees i).phase = .gated r)
      (hdepth : (W.slot thread process i r).depth = 0) (hheld : W.holder r ≠ none) :
      Step raises W (W.put thread process i r { W.lessees i with phase := .idle }
        ((W.slot thread process i r).leaveGate.disown i) (W.holder r))
  /-- Another exception before the gate is entered. -/
  | failClaimed {W} (i : ι) {r : UUID} (hraises : raises)
      (hphase : (W.lessees i).phase = .claimed r) : Step raises W (W.to i .idle)
  /-- Another exception after it: the lock leaves its gate. -/
  | failGated {W} (i : ι) {r : UUID} (hraises : raises)
      (hphase : (W.lessees i).phase = .gated r)
      (hdepth : (W.slot thread process i r).depth = 0) :
      Step raises W (W.put thread process i r { W.lessees i with phase := .idle }
        (W.slot thread process i r).leaveGate (W.holder r))
  /-- Begin a rollback, or the closing of the session. -/
  | exit {W} (i : ι) (closing : Bool) (hphase : (W.lessees i).phase = .idle) :
      Step raises W (W.to i (.exiting closing))
  /-- Let go of the lock taken last. -/
  | unlock {W} (i : ι) {closing : Bool} {r : UUID} {rest : List UUID}
      (hphase : (W.lessees i).phase = .exiting closing)
      (hlocks : (W.lessees i).controllerLocks = rest ++ [r]) :
      Step raises W (W.put thread process i r
        { phase := .unlocked r closing, controllerLocks := rest }
        (W.slot thread process i r).release
        (if (W.slot thread process i r).depth = 1 then none else W.holder r))
  /-- Remove its owner entry. -/
  | disown {W} (i : ι) {closing : Bool} {r : UUID}
      (hphase : (W.lessees i).phase = .unlocked r closing) :
      Step raises W (W.put thread process i r
        { W.lessees i with phase := .exiting closing }
        ((W.slot thread process i r).disown i) (W.holder r))
  /-- The rollback, or the closing, is at its end. -/
  | left {W} (i : ι) {closing : Bool} (hphase : (W.lessees i).phase = .exiting closing)
      (hlocks : (W.lessees i).controllerLocks = []) :
      Step raises W (W.to i (if closing then .closed else .idle))
  /-- Stop a process: its sessions, its tables and its locks are gone. -/
  | stop {W} (p : π) :
      Step raises W
        { lessees := fun i => if process (thread i) = p then { phase := .closed } else W.lessees i
          slots := Function.update W.slots p fun _ => {}
          holder := fun r => if W.holder r = some p then none else W.holder r }

end Step

/-! ## How far a session has come -/

/-- How far a session has come with the lease of a run. -/
inductive Engagement
  | none
  | claimed
  | gated
  | held
  | unlocked
deriving DecidableEq, Repr

/-- The run of an attempt or of a lock let go of. -/
def LeasePhase.run : LeasePhase → Option UUID
  | .claimed r => some r
  | .gated r => some r
  | .unlocked r _ => some r
  | _ => none

/-- How far, once the run is the phase's. -/
def LeasePhase.engagement : LeasePhase → Engagement
  | .claimed _ => .claimed
  | .gated _ => .gated
  | .unlocked _ _ => .unlocked
  | _ => .none

theorem LeasePhase.engagement_ne_none {phase : LeasePhase} {r : UUID} (h : phase.run = some r) :
    phase.engagement ≠ .none := by
  cases phase <;> simp [LeasePhase.run, LeasePhase.engagement] at h ⊢

/-- How far a session has come with a run. -/
def Lessee.engaged (l : Lessee) (r : UUID) : Engagement :=
  if r ∈ l.controllerLocks then .held
  else if l.phase.run = some r then l.phase.engagement
  else .none

/-- The gate and the depth a session of a thread leaves a lock with. -/
def Engagement.lock {θ : Type} (t : θ) : Engagement → Option (θ × Nat) × Nat
  | .gated => (some (t, 1), 0)
  | .held => (some (t, 1), 1)
  | _ => (Option.none, 0)

/-- A session names a run once. -/
structure Lessee.Ok (l : Lessee) : Prop where
  nodup : l.controllerLocks.Nodup
  apart : ∀ r, l.phase.run = some r → r ∉ l.controllerLocks
  closed : l.phase = .closed → l.controllerLocks = []

section Engaged

variable {l : Lessee} {r : UUID}

theorem Lessee.engaged_of_mem (h : r ∈ l.controllerLocks) : l.engaged r = .held := if_pos h

theorem Lessee.engaged_of_run (hok : l.Ok) (h : l.phase.run = some r) :
    l.engaged r = l.phase.engagement := by
  unfold Lessee.engaged
  rw [if_neg (hok.apart r h), if_pos h]

/-- A session between attempts is engaged with the runs of its locks only. -/
theorem Lessee.engaged_of_quiet (h : l.phase.run = none) (hr : r ∉ l.controllerLocks) :
    l.engaged r = .none := by
  simp [Lessee.engaged, h, hr]

/-- A session that changes its part of one run is engaged with the others as it was. -/
theorem Lessee.engaged_other {l' : Lessee} {q : UUID} (hq : q ≠ r)
    (hlocks : q ∈ l'.controllerLocks ↔ q ∈ l.controllerLocks)
    (hrun : l.phase.run = none ∨ l.phase.run = some r)
    (hrun' : l'.phase.run = none ∨ l'.phase.run = some r) : l'.engaged q = l.engaged q := by
  have hno : ∀ o : Option UUID, o = none ∨ o = some r → o ≠ some q := by
    rintro o (rfl | rfl) h
    · cases h
    · exact hq (Option.some.inj h).symm
  unfold Lessee.engaged
  rw [if_neg (hno _ hrun), if_neg (hno _ hrun')]
  simp only [hlocks]

end Engaged

/-! ## The invariant -/

section Invariant

variable {ι θ π : Type} [DecidableEq ι] [DecidableEq θ] [DecidableEq π]
  (thread : ι → θ) (process : θ → π)

/-- The gate and the depth of a lock: those its owner's engagement leaves. -/
def Leases.expected (W : Leases ι θ π) (p : π) (r : UUID) : Option (θ × Nat) × Nat :=
  match (W.slots p r).owner with
  | some i => ((W.lessees i).engaged r).lock (thread i)
  | none => (none, 0)

/-- The tables, the locks and the sessions agree; an owner entry outlives its session's
engagement only where attempts may end in other exceptions. -/
structure Leases.Inv (raises : Prop) (W : Leases ι θ π) : Prop where
  lessees : ∀ i, (W.lessees i).Ok
  engaged : ∀ i r, (W.lessees i).engaged r ≠ .none →
    (W.slots (process (thread i)) r).owner = some i
  owner : ∀ p r i, (W.slots p r).owner = some i → process (thread i) = p
  current : ¬ raises → ∀ p r i, (W.slots p r).owner = some i → (W.lessees i).engaged r ≠ .none
  locked : ∀ p r, ((W.slots p r).gate, (W.slots p r).depth) = W.expected thread p r
  holder : ∀ p r, W.holder r = some p ↔ (W.slots p r).depth ≠ 0

variable {thread process} {raises : Prop} {W : Leases ι θ π} {i : ι} {r : UUID}

omit [DecidableEq ι] [DecidableEq θ] [DecidableEq π] in
theorem Leases.inv_initial : (Leases.initial ι θ π).Inv thread process raises where
  lessees _ := ⟨List.nodup_nil, by simp [Leases.initial], fun _ => rfl⟩
  engaged i r h := absurd (Lessee.engaged_of_quiet rfl (by simp [Leases.initial])) h
  owner _ _ _ h := by cases h
  current _ _ _ _ h := by cases h
  locked _ _ := rfl
  holder _ _ := by simp [Leases.initial]

omit [DecidableEq θ] in
@[simp] theorem Leases.lessees_put (l : Lessee) (s : Slot ι θ) (h : Option π) :
    (W.put thread process i r l s h).lessees i = l := Function.update_self ..

omit [DecidableEq θ] in
@[simp] theorem Leases.slot_put (l : Lessee) (s : Slot ι θ) (h : Option π) :
    (W.put thread process i r l s h).slot thread process i r = s := if_pos ⟨rfl, rfl⟩

omit [DecidableEq θ] in
@[simp] theorem Leases.holder_put (l : Lessee) (s : Slot ι θ) (h : Option π) :
    (W.put thread process i r l s h).holder r = h := Function.update_self ..

omit [DecidableEq θ] in
/-- What a session changes of one run's lease keeps the invariant, when the entry was free or
its own and is left as its new engagement asks. -/
theorem Leases.Inv.put {l : Lessee} {s : Slot ι θ} {h : Option π} (hW : W.Inv thread process raises)
    (hok : l.Ok) (hother : ∀ q, q ≠ r → l.engaged q = (W.lessees i).engaged q)
    (hbefore : ∀ j, (W.slot thread process i r).owner = some j → j = i)
    (howner : s.owner = some i ∧ (¬ raises → l.engaged r ≠ .none) ∨
      s.owner = none ∧ l.engaged r = .none)
    (hlocked : (s.gate, s.depth) = (l.engaged r).lock (thread i))
    (hholder : ∀ p, h = some p ↔
      (if p = process (thread i) then s.depth else (W.slots p r).depth) ≠ 0) :
    (W.put thread process i r l s h).Inv thread process raises := by
  -- No other session of the process is engaged with the run.
  have halone : ∀ j, j ≠ i → process (thread j) = process (thread i) →
      (W.lessees j).engaged r = .none := by
    intro j hj hprocess
    by_contra hengaged
    have howned := hW.engaged j r hengaged
    rw [hprocess] at howned
    exact hj (hbefore j howned)
  constructor
  · intro j
    by_cases hj : j = i
    · subst hj
      simpa [Leases.put] using hok
    · simpa [Leases.put, hj] using hW.lessees j
  · intro j q hengaged
    by_cases hj : j = i
    · subst hj
      simp only [Leases.put, Function.update_self] at hengaged ⊢
      by_cases hq : q = r
      · subst hq
        rw [if_pos (by simp)]
        rcases howner with ⟨h, -⟩ | ⟨-, h⟩
        · exact h
        · exact absurd h hengaged
      · rw [if_neg (by simp [hq])]
        rw [hother q hq] at hengaged
        exact hW.engaged j q hengaged
    · simp only [Leases.put, Function.update_of_ne hj] at hengaged ⊢
      rw [if_neg]
      · exact hW.engaged j q hengaged
      · rintro ⟨hprocess, rfl⟩
        exact hengaged (halone j hj hprocess)
  · intro p q j howned
    simp only [Leases.put] at howned
    split at howned
    · next hpq =>
      obtain ⟨rfl, rfl⟩ := hpq
      rcases howner with ⟨h, -⟩ | ⟨h, -⟩
      · rw [h] at howned
        cases howned
        rfl
      · rw [h] at howned
        cases howned
    · exact hW.owner p q j howned
  · intro hraises p q j howned
    simp only [Leases.put] at howned ⊢
    split at howned
    · next hpq =>
      obtain ⟨rfl, rfl⟩ := hpq
      rcases howner with ⟨h, hengaged⟩ | ⟨h, -⟩
      · rw [h] at howned
        cases howned
        rw [Function.update_self]
        exact hengaged hraises
      · rw [h] at howned
        cases howned
    · next hpq =>
      by_cases hj : j = i
      · subst hj
        have hp := hW.owner p q j howned
        have hq : q ≠ r := fun hq => hpq ⟨hp.symm, hq⟩
        rw [Function.update_self, hother q hq]
        exact hW.current hraises p q j howned
      · rw [Function.update_of_ne hj]
        exact hW.current hraises p q j howned
  · intro p q
    simp only [Leases.put, Leases.expected]
    by_cases hpq : p = process (thread i) ∧ q = r
    · obtain ⟨rfl, rfl⟩ := hpq
      simp only [and_self, if_true]
      rcases howner with ⟨h, -⟩ | ⟨h, hnone⟩
      · simp only [h, Function.update_self, hlocked]
      · rw [h, hlocked, hnone]
        rfl
    · simp only [if_neg hpq]
      rw [hW.locked p q, Leases.expected]
      cases howned : (W.slots p q).owner with
      | none => rfl
      | some j =>
        by_cases hj : j = i
        · subst hj
          have hp := hW.owner p q j howned
          have hq : q ≠ r := fun hq => hpq ⟨hp.symm, hq⟩
          simp only [Function.update_self, hother q hq]
        · simp only [Function.update_of_ne hj]
  · intro p q
    simp only [Leases.put]
    by_cases hq : q = r
    · subst hq
      rw [Function.update_self, hholder p]
      by_cases hp : p = process (thread i)
      · simp [hp]
      · simp [hp]
    · rw [Function.update_of_ne hq, if_neg (by simp [hq])]
      exact hW.holder p q

omit [DecidableEq θ] [DecidableEq π] in
/-- A change of what a session is at keeps the invariant, when it is engaged as before or,
after another exception, no more with a run whose lock it has not entered. -/
theorem Leases.Inv.to {phase : LeasePhase} (hW : W.Inv thread process raises)
    (hok : Lessee.Ok { W.lessees i with phase })
    (hengaged : ∀ q, Lessee.engaged { W.lessees i with phase } q = (W.lessees i).engaged q ∨
      raises ∧ Lessee.engaged { W.lessees i with phase } q = .none ∧
        (W.lessees i).engaged q = .claimed) :
    (W.to i phase).Inv thread process raises := by
  constructor
  · intro j
    by_cases hj : j = i
    · subst hj
      simpa [Leases.to] using hok
    · simpa [Leases.to, hj] using hW.lessees j
  · intro j q h
    by_cases hj : j = i
    · subst hj
      simp only [Leases.to, Function.update_self] at h
      rcases hengaged q with heq | ⟨-, hnone, -⟩
      · exact hW.engaged j q (heq ▸ h)
      · exact absurd hnone h
    · simp only [Leases.to, Function.update_of_ne hj] at h
      exact hW.engaged j q h
  · exact hW.owner
  · intro hraises p q j howned
    have hcurrent := hW.current hraises p q j howned
    by_cases hj : j = i
    · subst hj
      simp only [Leases.to, Function.update_self]
      rcases hengaged q with heq | ⟨h, -⟩
      · exact heq ▸ hcurrent
      · exact absurd h hraises
    · simpa only [Leases.to, Function.update_of_ne hj] using hcurrent
  · intro p q
    have hlocked := hW.locked p q
    unfold Leases.expected at hlocked ⊢
    simp only [Leases.to]
    cases howned : (W.slots p q).owner with
    | none => simpa only [howned] using hlocked
    | some j =>
      simp only [howned] at hlocked ⊢
      by_cases hj : j = i
      · subst hj
        rw [Function.update_self, hlocked]
        rcases hengaged q with heq | ⟨-, hnone, hclaimed⟩
        · rw [heq]
        · rw [hnone, hclaimed]
          rfl
      · rw [Function.update_of_ne hj, hlocked]
  · exact hW.holder

omit [DecidableEq ι] [DecidableEq θ] [DecidableEq π] in
/-- The lock of a run a session is engaged with. -/
theorem Leases.Inv.lock_of (hW : W.Inv thread process raises) {e : Engagement}
    (he : (W.lessees i).engaged r = e) (hne : e ≠ .none) :
    (W.slot thread process i r).owner = some i ∧
      (W.slot thread process i r).gate = (e.lock (thread i)).1 ∧
      (W.slot thread process i r).depth = (e.lock (thread i)).2 := by
  have howner := hW.engaged i r (he ▸ hne)
  have hlocked := hW.locked (process (thread i)) r
  unfold Leases.expected at hlocked
  rw [howner] at hlocked
  simp only [he] at hlocked
  exact ⟨howner, congrArg Prod.fst hlocked, congrArg Prod.snd hlocked⟩

omit [DecidableEq ι] [DecidableEq θ] in
/-- A change that leaves a lock's depth leaves its holder. -/
theorem Leases.Inv.holder_same (hW : W.Inv thread process raises) {depth : Nat}
    (h : depth = (W.slot thread process i r).depth) (p : π) :
    W.holder r = some p ↔
      (if p = process (thread i) then depth else (W.slots p r).depth) ≠ 0 := by
  rw [hW.holder p r, h]
  by_cases hp : p = process (thread i)
  · simp [hp, Leases.slot]
  · simp [hp]

omit [DecidableEq ι] [DecidableEq θ] [DecidableEq π] in
/-- Of two processes one at most holds a file's lock. -/
theorem Leases.Inv.depth_other (hW : W.Inv thread process raises) {p q : π}
    (h : (W.slots q r).depth ≠ 0) (hp : p ≠ q) : (W.slots p r).depth = 0 := by
  by_contra hdepth
  have hholder := (hW.holder p r).mpr hdepth
  rw [(hW.holder q r).mpr h] at hholder
  exact hp (Option.some.inj hholder).symm

omit [DecidableEq θ] [DecidableEq π] in
/-- A session that is not in an attempt may change what it is at. -/
theorem Leases.Inv.to_quiet {phase : LeasePhase} (hW : W.Inv thread process raises)
    (hrun : (W.lessees i).phase.run = none) (hrun' : phase.run = none)
    (hclosed : phase = .closed → (W.lessees i).controllerLocks = []) :
    (W.to i phase).Inv thread process raises := by
  have hok := hW.lessees i
  refine hW.to ⟨hok.nodup, by simp [hrun'], hclosed⟩ fun q => .inl ?_
  simp [Lessee.engaged, hrun, hrun']

omit [DecidableEq ι] [DecidableEq θ] [DecidableEq π] in
/-- The lock of the run of an attempt, or of one let go of. -/
theorem Leases.Inv.lock_of_run (hW : W.Inv thread process raises)
    (h : (W.lessees i).phase.run = some r) :
    (W.slot thread process i r).owner = some i ∧
      (W.slot thread process i r).gate =
        ((W.lessees i).phase.engagement.lock (thread i)).1 ∧
      (W.slot thread process i r).depth =
        ((W.lessees i).phase.engagement.lock (thread i)).2 := by
  exact hW.lock_of (Lessee.engaged_of_run (hW.lessees i) h) (LeasePhase.engagement_ne_none h)

omit [DecidableEq θ] in
/-- A session may go on with an attempt, or end it, when it leaves the lock as its new
engagement asks and the owner entry its own or removed. -/
theorem Leases.Inv.put_attempt {phase : LeasePhase} {s : Slot ι θ}
    (hW : W.Inv thread process raises)
    (hrun : (W.lessees i).phase.run = some r)
    (hphase : phase.run = some r ∨ phase.run = none) (hclosed : phase ≠ .closed)
    (howner : s.owner = some i ∧ (raises ∨ phase.run = some r) ∨ s.owner = none ∧ phase.run = none)
    (hlocked : (s.gate, s.depth) = phase.engagement.lock (thread i))
    (hdepth : s.depth = (W.slot thread process i r).depth) :
    (W.put thread process i r { W.lessees i with phase } s (W.holder r)).Inv
      thread process raises := by
  have hok := hW.lessees i
  have hnew := hok.apart r hrun
  obtain ⟨hown, -, -⟩ := hW.lock_of_run hrun
  have hok' : Lessee.Ok { W.lessees i with phase } := by
    refine ⟨hok.nodup, fun q hq => ?_, fun h => absurd h hclosed⟩
    rcases hphase with h | h
    · cases h.symm.trans hq
      exact hnew
    · cases h.symm.trans hq
  have hengaged : Lessee.engaged { W.lessees i with phase } r = phase.engagement := by
    rcases hphase with h | h
    · exact Lessee.engaged_of_run hok' h
    · refine (Lessee.engaged_of_quiet (l := { W.lessees i with phase }) h hnew).trans ?_
      cases phase <;> first | rfl | cases h
  refine hW.put hok' ?_ ?_ ?_ (hengaged ▸ hlocked) (hW.holder_same hdepth)
  · intro q hq
    exact Lessee.engaged_other hq Iff.rfl (.inr hrun) hphase.symm
  · intro j hj
    exact Option.some.inj (hj.symm.trans hown)
  · rcases howner with ⟨h, hor⟩ | ⟨h, hnone⟩
    · refine .inl ⟨h, fun hraises => ?_⟩
      rw [hengaged]
      rcases hor with hor | hor
      · exact absurd hor hraises
      · exact LeasePhase.engagement_ne_none hor
    · exact .inr ⟨h, Lessee.engaged_of_quiet hnone hnew⟩

/-! ## The steps keep it -/

/-- Every step keeps the invariant. -/
theorem Leases.Step.inv {W' : Leases ι θ π} (hW : W.Inv thread process raises)
    (h : W.Step thread process raises W') : W'.Inv thread process raises := by
  cases h with
  | claim i r hphase hnew howner =>
    have hok := hW.lessees i
    have hquiet : (W.lessees i).phase.run = none := by rw [hphase]; rfl
    have hnone := Lessee.engaged_of_quiet hquiet hnew
    have hlocked : ((W.slot thread process i r).gate, (W.slot thread process i r).depth) =
        (none, 0) := by
      refine (hW.locked (process (thread i)) r).trans ?_
      unfold Leases.expected
      cases howned : (W.slots (process (thread i)) r).owner with
      | none => rfl
      | some j =>
        cases howner j howned
        simp only [hnone]
        rfl
    have hengaged : Lessee.engaged { W.lessees i with phase := .claimed r } r = .claimed := by
      simp [Lessee.engaged, hnew, LeasePhase.run, LeasePhase.engagement]
    refine hW.put ⟨hok.nodup, by simpa [LeasePhase.run] using hnew, by simp⟩ ?_ howner
      (.inl ⟨rfl, fun _ => by simp [hengaged]⟩) ?_ (hW.holder_same rfl)
    · intro q hq
      exact Lessee.engaged_other hq Iff.rfl (.inl hquiet) (.inr rfl)
    · rw [hengaged]
      exact hlocked
  | refuse => exact hW
  | @enter i r s hphase hgate =>
    have hrun : (W.lessees i).phase.run = some r := by rw [hphase]; rfl
    obtain ⟨howner, hfree, hdepth⟩ := hW.lock_of_run hrun
    rw [hphase] at hfree hdepth
    have hs : s = { W.slot thread process i r with gate := some (thread i, 1) } := by
      unfold Slot.enterGate at hgate
      rw [hfree] at hgate
      exact (Option.some.inj hgate).symm
    refine hW.put_attempt hrun (.inl rfl) (by simp) (.inl ⟨hs ▸ howner, .inr rfl⟩) ?_ (hs ▸ rfl)
    rw [hs]
    exact congrArg (Prod.mk _) hdepth
  | @gateTimeout i r hphase =>
    have hrun : (W.lessees i).phase.run = some r := by rw [hphase]; rfl
    obtain ⟨howner, hfree, hdepth⟩ := hW.lock_of_run hrun
    rw [hphase] at hfree hdepth
    have hs : (W.slot thread process i r).disown i =
        { W.slot thread process i r with owner := none } := if_pos howner
    rw [hs]
    exact hW.put_attempt hrun (.inr rfl) (by simp) (.inr ⟨rfl, rfl⟩) (Prod.ext hfree hdepth) rfl
  | @reenter i r hphase hdepth =>
    obtain ⟨-, -, hzero⟩ := hW.lock_of_run (i := i) (r := r) (by rw [hphase]; rfl)
    rw [hphase] at hzero
    exact absurd hzero hdepth
  | @lock i r hphase hdepth hfree =>
    have hok := hW.lessees i
    have hrun : (W.lessees i).phase.run = some r := by rw [hphase]; rfl
    have hnew := hok.apart r hrun
    obtain ⟨howner, hgate, -⟩ := hW.lock_of_run hrun
    rw [hphase] at hgate
    have hengaged : Lessee.engaged
        { phase := .idle, controllerLocks := (W.lessees i).controllerLocks ++ [r] } r = .held :=
      Lessee.engaged_of_mem (by simp)
    refine hW.put ⟨?_, by simp [LeasePhase.run], by simp⟩ ?_ ?_
      (.inl ⟨howner, fun _ => by simp [hengaged]⟩) ?_ ?_
    · exact List.nodup_append.mpr ⟨hok.nodup, by simp, by
        rintro a ha b hb rfl
        exact hnew (List.mem_singleton.mp hb ▸ ha)⟩
    · intro q hq
      exact Lessee.engaged_other hq (by simp [hq]) (.inr hrun) (.inl rfl)
    · intro j hj
      exact Option.some.inj (hj.symm.trans howner)
    · rw [hengaged]
      exact congrArg (·, 1) hgate
    · intro p
      by_cases hp : p = process (thread i)
      · simp [hp]
      · have hzero : (W.slots p r).depth = 0 := by
          by_contra hne
          rw [(hW.holder p r).mpr hne] at hfree
          cases hfree
        simp [hp, hzero, Ne.symm hp]
  | @fileTimeout i r hphase hdepth hheld =>
    have hrun : (W.lessees i).phase.run = some r := by rw [hphase]; rfl
    obtain ⟨howner, hgate, -⟩ := hW.lock_of_run hrun
    rw [hphase] at hgate
    have hs : (W.slot thread process i r).leaveGate.disown i =
        { W.slot thread process i r with owner := none, gate := none } := by
      simp [Slot.leaveGate, hgate, LeasePhase.engagement, Engagement.lock, Slot.disown, howner]
    rw [hs]
    exact hW.put_attempt hrun (.inr rfl) (by simp) (.inr ⟨rfl, rfl⟩)
      (congrArg (Prod.mk _) hdepth) rfl
  | @failClaimed i r hraises hphase =>
    have hok := hW.lessees i
    have hrun : (W.lessees i).phase.run = some r := by rw [hphase]; rfl
    refine hW.to ⟨hok.nodup, by simp [LeasePhase.run], by simp⟩ fun q => ?_
    by_cases hq : q = r
    · subst hq
      refine .inr ⟨hraises, Lessee.engaged_of_quiet rfl (hok.apart q hrun), ?_⟩
      rw [Lessee.engaged_of_run hok hrun, hphase]
      rfl
    · exact .inl (Lessee.engaged_other hq Iff.rfl (.inr hrun) (.inl rfl))
  | @failGated i r hraises hphase hdepth =>
    have hrun : (W.lessees i).phase.run = some r := by rw [hphase]; rfl
    obtain ⟨howner, hgate, -⟩ := hW.lock_of_run hrun
    rw [hphase] at hgate
    have hs : (W.slot thread process i r).leaveGate =
        { W.slot thread process i r with gate := none } := by
      simp [Slot.leaveGate, hgate, LeasePhase.engagement, Engagement.lock]
    rw [hs]
    exact hW.put_attempt hrun (.inr rfl) (by simp) (.inl ⟨howner, .inl hraises⟩)
      (congrArg (Prod.mk _) hdepth) rfl
  | exit i closing hphase =>
    exact hW.to_quiet (by rw [hphase]; rfl) rfl (by simp)
  | @unlock i closing r rest hphase hlocks =>
    have hok := hW.lessees i
    have hquiet : (W.lessees i).phase.run = none := by rw [hphase]; rfl
    have hmem : r ∈ (W.lessees i).controllerLocks := by simp [hlocks]
    have hnodup := hok.nodup
    rw [hlocks, List.nodup_append] at hnodup
    have hrest : r ∉ rest := fun h => hnodup.2.2 r h r (by simp) rfl
    obtain ⟨howner, hgate, hdepth⟩ := hW.lock_of (Lessee.engaged_of_mem hmem) (by simp)
    have hs : (W.slot thread process i r).release =
        { W.slot thread process i r with gate := none, depth := 0 } := by
      simp [Slot.release, Slot.leaveGate, hgate, hdepth, Engagement.lock]
    have hok' : Lessee.Ok { phase := .unlocked r closing, controllerLocks := rest } :=
      ⟨hnodup.1, by simpa [LeasePhase.run] using hrest, by simp⟩
    have hone : (W.slot thread process i r).depth = 1 := hdepth
    rw [hs, if_pos hone]
    have hengaged := Lessee.engaged_of_run (r := r) hok' rfl
    refine hW.put hok' ?_ ?_
      (.inl ⟨howner, fun _ => by simp [hengaged, LeasePhase.engagement]⟩) ?_ ?_
    · intro q hq
      exact Lessee.engaged_other hq (by simp [hlocks, hq]) (.inl hquiet) (.inr rfl)
    · intro j hj
      exact Option.some.inj (hj.symm.trans howner)
    · rw [hengaged]
      rfl
    · intro p
      by_cases hp : p = process (thread i)
      · simp [hp]
      · have hheld : (W.slots (process (thread i)) r).depth ≠ 0 := by
          exact hone ▸ Nat.one_ne_zero
        simp [hp, hW.depth_other hheld hp]
  | @disown i closing r hphase =>
    have hrun : (W.lessees i).phase.run = some r := by rw [hphase]; rfl
    obtain ⟨howner, hgate, hdepth⟩ := hW.lock_of_run hrun
    rw [hphase] at hgate hdepth
    have hs : (W.slot thread process i r).disown i =
        { W.slot thread process i r with owner := none } := if_pos howner
    rw [hs]
    exact hW.put_attempt hrun (.inr rfl) (by simp) (.inr ⟨rfl, rfl⟩) (Prod.ext hgate hdepth)
      rfl
  | @left i closing hphase hlocks =>
    refine hW.to_quiet (by rw [hphase]; rfl) ?_ fun _ => hlocks
    cases closing <;> rfl
  | stop p =>
    constructor
    · intro i
      dsimp only
      split
      · exact ⟨List.nodup_nil, by simp [LeasePhase.run], fun _ => rfl⟩
      · exact hW.lessees i
    · intro i r hengaged
      dsimp only at hengaged ⊢
      split at hengaged
      · exact absurd (Lessee.engaged_of_quiet rfl (by simp)) hengaged
      · next hp =>
        rw [Function.update_of_ne hp]
        exact hW.engaged i r hengaged
    · intro q r i howned
      dsimp only at howned
      by_cases hq : q = p
      · rw [hq, Function.update_self] at howned
        cases howned
      · rw [Function.update_of_ne hq] at howned
        exact hW.owner q r i howned
    · intro hraises q r i howned
      dsimp only at howned ⊢
      by_cases hq : q = p
      · rw [hq, Function.update_self] at howned
        cases howned
      · rw [Function.update_of_ne hq] at howned
        have hp : process (thread i) ≠ p := fun h => hq ((hW.owner q r i howned).symm.trans h)
        rw [if_neg hp]
        exact hW.current hraises q r i howned
    · intro q r
      unfold Leases.expected
      dsimp only
      by_cases hq : q = p
      · rw [hq, Function.update_self]
      · rw [Function.update_of_ne hq, hW.locked q r]
        unfold Leases.expected
        cases howned : (W.slots q r).owner with
        | none => rfl
        | some i =>
          have hp : process (thread i) ≠ p := fun h => hq ((hW.owner q r i howned).symm.trans h)
          simp only [if_neg hp]
    · intro q r
      dsimp only
      by_cases hq : q = p
      · rw [hq, Function.update_self]
        split <;> simp_all
      · rw [Function.update_of_ne hq, ← hW.holder q r]
        split
        · next hholder => simp [hholder, Ne.symm hq]
        · exact Iff.rfl

/-- So does every run. -/
theorem Leases.inv_run
    (h : ReflTransGen (Leases.Step thread process raises) (.initial ι θ π) W) :
    W.Inv thread process raises :=
  Preserved.run (fun _ _ hW hstep => Leases.Step.inv hW hstep) h Leases.inv_initial

/-! ## Exclusion and release -/

/-- One session at most owns the lease of a run. -/
def Leases.Exclusive (W : Leases ι θ π) : Prop :=
  ∀ i j r, r ∈ (W.lessees i).controllerLocks → r ∈ (W.lessees j).controllerLocks → i = j

/-- A session whose rollback or closing is at its end has no owner entry left. -/
def Leases.Released (W : Leases ι θ π) : Prop :=
  ∀ i, (W.lessees i).phase = .idle ∨ (W.lessees i).phase = .closed →
    (W.lessees i).controllerLocks = [] → ∀ p r, (W.slots p r).owner ≠ some i

/-- A session can acquire a lease that no other session is engaged with. -/
def Leases.Acquirable (thread : ι → θ) (process : θ → π) (W : Leases ι θ π) : Prop :=
  ∀ i r, (W.lessees i).phase = .idle → (∀ j, j ≠ i → (W.lessees j).engaged r = .none) →
    ∃ W', ReflTransGen (Leases.Step thread process False) W W' ∧
      r ∈ (W'.lessees i).controllerLocks

omit [DecidableEq ι] [DecidableEq θ] [DecidableEq π] in
theorem Leases.Inv.exclusive (hW : W.Inv thread process raises) : W.Exclusive := by
  intro i j r hi hj
  obtain ⟨howner, -, hdepth⟩ := hW.lock_of (Lessee.engaged_of_mem hi) (by simp)
  obtain ⟨howner', -, hdepth'⟩ := hW.lock_of (Lessee.engaged_of_mem hj) (by simp)
  have hholder := (hW.holder (process (thread i)) r).mpr (hdepth ▸ Nat.one_ne_zero)
  have hholder' := (hW.holder (process (thread j)) r).mpr (hdepth' ▸ Nat.one_ne_zero)
  have hprocess : process (thread i) = process (thread j) :=
    Option.some.inj (hholder.symm.trans hholder')
  unfold Leases.slot at howner howner'
  rw [hprocess] at howner
  exact Option.some.inj (howner.symm.trans howner')

omit [DecidableEq ι] [DecidableEq θ] [DecidableEq π] in
theorem Leases.Inv.released (hW : W.Inv thread process False) : W.Released := by
  intro i hphase hlocks p r howner
  refine hW.current not_false p r i howner (Lessee.engaged_of_quiet ?_ (by simp [hlocks]))
  rcases hphase with h | h
  · rw [h]
    rfl
  · rw [h]
    rfl

theorem Leases.Inv.acquirable (hW : W.Inv thread process False) :
    W.Acquirable thread process := by
  intro i r hphase hothers
  by_cases hmem : r ∈ (W.lessees i).controllerLocks
  · exact ⟨W, .refl, hmem⟩
  -- Nobody is engaged with the run, so its entry and its lock are free everywhere.
  have hnone : ∀ j, (W.lessees j).engaged r = .none := by
    intro j
    by_cases hj : j = i
    · rw [hj]
      exact Lessee.engaged_of_quiet (by rw [hphase]; rfl) hmem
    · exact hothers j hj
  have hfree : ∀ p, (W.slots p r).owner = none := by
    intro p
    cases howner : (W.slots p r).owner with
    | none => rfl
    | some j => exact absurd (hnone j) (hW.current not_false p r j howner)
  have hlocked : ∀ p, (W.slots p r).gate = none ∧ (W.slots p r).depth = 0 := by
    intro p
    have hlocked := hW.locked p r
    unfold Leases.expected at hlocked
    rw [hfree p] at hlocked
    exact ⟨congrArg Prod.fst hlocked, congrArg Prod.snd hlocked⟩
  have hholder : W.holder r = none := by
    cases hholder : W.holder r with
    | none => rfl
    | some p => exact absurd (hlocked p).2 ((hW.holder p r).mp hholder)
  have hslot : W.slot thread process i r =
      { owner := none, gate := none, depth := 0 } := by
    rw [← hfree (process (thread i)), ← (hlocked (process (thread i))).1,
      ← (hlocked (process (thread i))).2]
    rfl
  have hclaim : ∀ j, (W.slot thread process i r).owner = some j → j = i := by simp [hslot]
  have hgate : ((W.slot thread process i r).claim i).enterGate (thread i) =
      some { owner := some i, gate := some (thread i, 1), depth := 0 } := by
    simp [hslot, Slot.claim, Slot.enterGate]
  refine ⟨_, ((ReflTransGen.single (.claim i r hphase hmem hclaim)).tail
    (.enter (s := ⟨some i, some (thread i, 1), 0⟩) i (r := r) (by simp)
      (by simpa using hgate))).tail
    (.lock i (r := r) (by simp) (by simp) (by simpa using hholder)), by simp⟩

end Invariant

/-! ## An attempt that ends in another exception -/

/-- A thread's session acquires a lease. -/
theorem sample_leased : ∃ W : Leases Nat Nat Nat,
    ReflTransGen (Leases.Step id (fun _ => 0) False) (.initial Nat Nat Nat) W ∧
      UUID.uuid4 1 ∈ (W.lessees 0).controllerLocks :=
  Leases.inv_initial.acquirable 0 (.uuid4 1) rfl fun _ _ => rfl

end Orqalis
