import Mathlib.Data.List.Basic
import Mathlib.Logic.Function.Basic

/-!
# Programs that may be stopped

A program over a disk `σ` answers a value or an error, leaves a disk, and names every disk
a stop of the process can leave while it runs. A stop is not an error: nothing of the
program runs after it, neither its handlers nor its later steps, so all that survives is
one of the named disks.

`Meets m s C Q` is the triple of such a program at one start: every stop leaves a disk in
`C`, and a run to the end satisfies `Q`. The rules follow the program's own shape.

A recovery that is itself stopped and started again any number of times is `Stopped`. The
one fact a redo log rests on is at the end: replaying a list of assignments over what a
part of it already wrote is replaying it over the start.
-/

namespace Lib.Crash

universe u v w

/-- One run: what a stop during it can leave, its answer, and the disk at its end. -/
structure Ran (σ : Type u) (ε : Type v) (α : Type w) where
  stops : List σ
  value : Except ε α
  disk : σ

/-- A program over the disk `σ`. -/
@[ext] structure Prog (σ : Type u) (ε : Type v) (α : Type w) where
  run : σ → Ran σ ε α

namespace Prog

variable {σ : Type u} {ε : Type v} {α β : Type w}

/-- Continue a run with what follows; an error ends it. -/
def andThen (r : Ran σ ε α) (f : α → Prog σ ε β) : Ran σ ε β :=
  match r.value with
  | .ok a =>
    let next := (f a).run r.disk
    ⟨r.stops ++ next.stops, next.value, next.disk⟩
  | .error e => ⟨r.stops, .error e, r.disk⟩

instance : Monad (Prog σ ε) where
  pure a := ⟨fun s => ⟨[], .ok a, s⟩⟩
  bind m f := ⟨fun s => andThen (m.run s) f⟩

@[simp] theorem run_pure (a : α) (s : σ) : (pure a : Prog σ ε α).run s = ⟨[], .ok a, s⟩ := rfl

theorem run_bind (m : Prog σ ε α) (f : α → Prog σ ε β) (s : σ) :
    (m >>= f).run s = andThen (m.run s) f := rfl

/-- What follows a part that only read starts where that part started. -/
theorem run_bind_of_ok {m : Prog σ ε α} {f : α → Prog σ ε β} {s : σ} {a : α}
    (h : m.run s = ⟨[], .ok a, s⟩) : (m >>= f).run s = (f a).run s := by
  rw [run_bind, h]
  cases hf : (f a).run s with
  | mk stops value disk => simp [andThen, hf]

theorem run_bind_of_error {m : Prog σ ε α} {f : α → Prog σ ε β} {s : σ} {e : ε}
    (h : m.run s = ⟨[], .error e, s⟩) : (m >>= f).run s = ⟨[], .error e, s⟩ := by
  rw [run_bind, h]
  rfl

instance : LawfulMonad (Prog σ ε) := LawfulMonad.mk' _
  (by
    intro α x
    apply Prog.ext
    funext s
    show andThen (x.run s) (fun a => pure (id a)) = x.run s
    cases h : x.run s with
    | mk stops value disk => cases value <;> simp [andThen])
  (by
    intro α β x f
    rfl)
  (by
    intro α β γ x f g
    apply Prog.ext
    funext s
    simp only [run_bind]
    cases h : x.run s with
    | mk stops value disk =>
      cases value with
      | error e => rfl
      | ok a =>
        simp only [andThen, run_bind]
        cases h' : (f a).run disk with
        | mk stops' value' disk' => cases value' <;> simp [List.append_assoc])

/-- Read something of the disk. -/
def read (f : σ → α) : Prog σ ε α := ⟨fun s => ⟨[], .ok (f s), s⟩⟩

/-- Raise an error. -/
def fail (e : ε) : Prog σ ε α := ⟨fun s => ⟨[], .error e, s⟩⟩

/-- The outcome of a pure check. -/
def lift : Except ε α → Prog σ ε α
  | .ok a => pure a
  | .error e => fail e

/-- Change the disk; a stop inside the step leaves one of `cuts`. -/
def step (cuts : σ → List σ) (f : σ → σ) : Prog σ ε PUnit := ⟨fun s => ⟨cuts s, .ok ⟨⟩, f s⟩⟩

/-- An all-or-nothing change of the disk. -/
def write (f : σ → σ) : Prog σ ε PUnit := step (fun s => [f s]) f

/-- A change of what a stop does not leave anything of. -/
def note (f : σ → σ) : Prog σ ε PUnit := step (fun _ => []) f

/-- A program over a part of the disk. -/
def focus {τ : Type*} (get : σ → τ) (set : τ → σ → σ) (m : Prog τ ε α) : Prog σ ε α :=
  ⟨fun s =>
    let ran := m.run (get s)
    ⟨ran.stops.map fun t => set t s, ran.value, set ran.disk s⟩⟩

/-- Run a program; an error becomes a value. -/
def attempt (m : Prog σ ε α) : Prog σ ε (Except ε α) :=
  ⟨fun s => ⟨(m.run s).stops, .ok (m.run s).value, (m.run s).disk⟩⟩

end Prog

open Prog

variable {σ : Type u} {ε : Type v} {α β : Type w}

/-! ## The triple -/

/-- From `s`, every stop of `m` leaves a disk in `C`, and a run to the end satisfies `Q`. -/
def Meets (m : Prog σ ε α) (s : σ) (C : σ → Prop) (Q : Except ε α → σ → Prop) : Prop :=
  (∀ t ∈ (m.run s).stops, C t) ∧ Q (m.run s).value (m.run s).disk

section Rules

variable {s : σ} {C C' : σ → Prop} {Q Q' : Except ε α → σ → Prop}

theorem Meets.mono {m : Prog σ ε α} (h : Meets m s C Q) (hC : ∀ t, C t → C' t)
    (hQ : ∀ v t, Q v t → Q' v t) : Meets m s C' Q' :=
  ⟨fun t ht => hC t (h.1 t ht), hQ _ _ h.2⟩

theorem meets_pure {a : α} (h : Q (.ok a) s) : Meets (pure a) s C Q :=
  ⟨by simp, h⟩

theorem meets_read {f : σ → α} (h : Q (.ok (f s)) s) : Meets (read f) s C Q :=
  ⟨by simp [Prog.read], h⟩

theorem meets_fail {e : ε} (h : Q (.error e) s) : Meets (fail e) s C Q :=
  ⟨by simp [Prog.fail], h⟩

theorem meets_lift {r : Except ε α} (h : Q r s) : Meets (lift r) s C Q := by
  cases r with
  | ok a => exact meets_pure h
  | error e => exact meets_fail h

theorem meets_step {cuts : σ → List σ} {f : σ → σ} {Q : Except ε PUnit → σ → Prop}
    (hcuts : ∀ t ∈ cuts s, C t) (h : Q (.ok ⟨⟩) (f s)) : Meets (step cuts f) s C Q :=
  ⟨hcuts, h⟩

theorem meets_write {f : σ → σ} {Q : Except ε PUnit → σ → Prop} (hcut : C (f s))
    (h : Q (.ok ⟨⟩) (f s)) : Meets (write f) s C Q :=
  meets_step (by simpa using hcut) h

theorem meets_note {f : σ → σ} {Q : Except ε PUnit → σ → Prop} (h : Q (.ok ⟨⟩) (f s)) :
    Meets (note f) s C Q :=
  meets_step (by simp) h

/-- The rule of a part of the disk: the rest is carried along. -/
theorem meets_focus {τ : Type*} {get : σ → τ} {set : τ → σ → σ} {m : Prog τ ε α}
    (h : Meets m (get s) (fun t => C (set t s)) (fun v t => Q v (set t s))) :
    Meets (focus get set m) s C Q := by
  obtain ⟨hstops, hend⟩ := h
  refine ⟨?_, hend⟩
  intro u hu
  obtain ⟨t, ht, rfl⟩ := List.mem_map.mp hu
  exact hstops t ht

/-- The rule of sequencing: the stops of both parts, and the second from where the first
ended. -/
theorem meets_bind {m : Prog σ ε α} {f : α → Prog σ ε β} {R : Except ε β → σ → Prop}
    (h : Meets m s C (fun v t => match v with
      | .ok a => Meets (f a) t C R
      | .error e => R (.error e) t)) : Meets (m >>= f) s C R := by
  obtain ⟨hstops, hend⟩ := h
  unfold Meets
  rw [run_bind]
  cases hm : m.run s with
  | mk stops value disk =>
    rw [hm] at hstops hend
    cases value with
    | error e => exact ⟨hstops, hend⟩
    | ok a =>
      refine ⟨?_, hend.2⟩
      intro t ht
      rcases List.mem_append.mp ht with h₁ | h₂
      · exact hstops t h₁
      · exact hend.1 t h₂

/-- The rule of a part that runs under a condition before the rest. -/
theorem meets_before {c : Prop} [Decidable c] {m : Prog σ ε α} {k : Prog σ ε β}
    {R : Except ε β → σ → Prop} (hm : Meets m s C (fun v t => ∀ e, v = .error e → R (.error e) t))
    (hk : ∀ t, Meets k t C R) : Meets (if c then m >>= fun _ => k else k) s C R := by
  split
  · refine meets_bind (hm.mono (fun _ h => h) ?_)
    intro v t hv
    cases v with
    | ok a => exact hk t
    | error e => exact hv e rfl
  · exact hk s

/-- The rule of a loop over a list: an invariant of the disk and of what remains. -/
theorem meets_forM {l : List α} {f : α → Prog σ ε PUnit} (I : List α → σ → Prop)
    {Q : Except ε PUnit → σ → Prop} (hs : I l s)
    (hbody : ∀ a rest t, I (a :: rest) t → Meets (f a) t C (fun v t' => match v with
      | .ok _ => I rest t'
      | .error e => Q (.error e) t'))
    (hend : ∀ t, I [] t → Q (.ok ⟨⟩) t) : Meets (forM l f) s C Q := by
  induction l generalizing s with
  | nil => exact meets_pure (hend s hs)
  | cons a rest ih =>
    rw [List.forM_cons]
    apply meets_bind
    refine (hbody a rest s hs).mono (fun _ h => h) ?_
    intro v t hv
    cases v with
    | ok _ => exact ih hv
    | error e => exact hv

/-- The rule of a part that only reads: the rest starts where it started. -/
theorem meets_bind_of_quiet {m : Prog σ ε α} {f : α → Prog σ ε β} {v : Except ε α}
    {R : Except ε β → σ → Prop} (h : m.run s = ⟨[], v, s⟩)
    (hok : ∀ a, v = .ok a → Meets (f a) s C R) (herror : ∀ e, v = .error e → R (.error e) s) :
    Meets (m >>= f) s C R := by
  cases v with
  | ok a =>
    unfold Meets
    rw [run_bind_of_ok h]
    exact hok a rfl
  | error e =>
    unfold Meets
    rw [run_bind_of_error h]
    exact ⟨by simp, herror e rfl⟩

/-- The rule of a loop that collects answers, for an invariant of the disk. -/
theorem meets_mapM {l : List α} {f : α → Prog σ ε β} (hs : C s)
    (h : ∀ a t, C t → Meets (f a) t C fun _ t' => C t') :
    Meets (l.mapM f) s C fun _ t => C t := by
  induction l generalizing s with
  | nil => exact meets_pure hs
  | cons a l ih =>
    rw [List.mapM_cons]
    refine meets_bind ((h a s hs).mono (fun _ ht => ht) ?_)
    intro v t ht
    cases v with
    | error e => exact ht
    | ok b =>
      refine meets_bind ((ih ht).mono (fun _ ht => ht) ?_)
      intro w u hu
      cases w with
      | error e => exact hu
      | ok bs => exact meets_pure hu

/-- The rule of a loop that collects answers, for an invariant of the disk and what is known of
each answer. -/
theorem meets_mapM_each {l : List α} {f : α → Prog σ ε β} {P : α → Except ε β → Prop} (hs : C s)
    (h : ∀ a ∈ l, ∀ t, C t → Meets (f a) t C fun v t' => C t' ∧ P a v) :
    Meets (l.mapM f) s C fun v t => C t ∧
      (∀ bs, v = .ok bs → List.Forall₂ (fun a b => P a (.ok b)) l bs) ∧
      ∀ e, v = .error e → ∃ a ∈ l, P a (.error e) := by
  induction l generalizing s with
  | nil =>
    refine meets_pure ⟨hs, ?_, by simp⟩
    rintro bs hbs
    cases hbs
    exact .nil
  | cons a l ih =>
    rw [List.mapM_cons]
    refine meets_bind ((h a List.mem_cons_self s hs).mono (fun _ ht => ht) ?_)
    intro v t ht
    obtain ⟨ht, ha⟩ := ht
    cases v with
    | error e =>
      refine ⟨ht, by simp, fun e' he => ?_⟩
      cases he
      exact ⟨a, List.mem_cons_self, ha⟩
    | ok b =>
      refine meets_bind ((ih ht fun a' ha' => h a' (List.mem_cons_of_mem a ha')).mono
        (fun _ ht => ht) ?_)
      intro w u hu
      obtain ⟨hu, hall, herror⟩ := hu
      cases w with
      | error e =>
        refine ⟨hu, by simp, fun e' he => ?_⟩
        cases he
        obtain ⟨a', ha', hp⟩ := herror e rfl
        exact ⟨a', List.mem_cons_of_mem a ha', hp⟩
      | ok bs =>
        refine meets_pure ⟨hu, fun bs' hbs => ?_, by simp⟩
        cases hbs
        exact .cons ha (hall bs rfl)

end Rules

/-! ## What a program leaves alone -/

/-- A run of the program, whatever its outcome, leaves `p` of the disk as it was. -/
def Keeps {β : Type*} (p : σ → β) (m : Prog σ ε α) : Prop := ∀ s, p (m.run s).disk = p s

section Keeps

variable {γ : Type*} {p : σ → γ}

theorem Keeps.meets {m : Prog σ ε α} (h : Keeps p m) (s : σ) :
    Meets m s (fun _ => True) (fun _ t => p t = p s) := ⟨fun _ _ => trivial, h s⟩

theorem keeps_pure (a : α) : Keeps p (pure a : Prog σ ε α) := fun _ => rfl

theorem keeps_read (f : σ → α) : Keeps p (read f : Prog σ ε α) := fun _ => rfl

theorem keeps_fail (e : ε) : Keeps p (fail e : Prog σ ε α) := fun _ => rfl

theorem keeps_lift (r : Except ε α) : Keeps p (lift r : Prog σ ε α) := by
  cases r with
  | ok a => exact keeps_pure a
  | error e => exact keeps_fail e

theorem keeps_step {cuts : σ → List σ} {f : σ → σ} (h : ∀ s, p (f s) = p s) :
    Keeps p (step cuts f : Prog σ ε PUnit) := h

theorem keeps_bind {m : Prog σ ε α} {f : α → Prog σ ε β} (hm : Keeps p m)
    (hf : ∀ a, Keeps p (f a)) : Keeps p (m >>= f) := by
  intro s
  rw [run_bind]
  have hs := hm s
  cases hran : m.run s with
  | mk stops value disk =>
    rw [hran] at hs
    cases value with
    | error e => exact hs
    | ok a => exact (hf a disk).trans hs

theorem keeps_before {c : Prop} [Decidable c] {m : Prog σ ε α} {k : Prog σ ε β}
    (hm : Keeps p m) (hk : Keeps p k) : Keeps p (if c then m >>= fun _ => k else k) := by
  split
  · exact keeps_bind hm fun _ => hk
  · exact hk

theorem keeps_forM {f : α → Prog σ ε PUnit} (hf : ∀ a, Keeps p (f a)) (l : List α) :
    Keeps p (forM l f) := by
  induction l with
  | nil => exact keeps_pure _
  | cons a l ih =>
    rw [List.forM_cons]
    exact keeps_bind (hf a) fun _ => ih

end Keeps

/-! ## What no write of a program takes away -/

/-- Every disk a run passes through has `p` when one before it had. -/
def Grows (p : σ → Prop) (m : Prog σ ε α) : Prop :=
  ∀ s, (s :: ((m.run s).stops ++ [(m.run s).disk])).Pairwise fun x y => p x → p y

section Grows

variable {p : σ → Prop}

theorem Grows.meets {m : Prog σ ε α} (h : Grows p m) {s : σ} (hs : p s) :
    Meets m s p (fun _ t => p t) := by
  have hall := (List.pairwise_cons.mp (h s)).1
  exact ⟨fun t ht => hall t (List.mem_append_left _ ht) hs, hall _ (by simp) hs⟩

theorem grows_pure (a : α) : Grows p (pure a : Prog σ ε α) := fun s => by simp

theorem grows_read (f : σ → α) : Grows p (read f : Prog σ ε α) := fun s => by simp [Prog.read]

theorem grows_fail (e : ε) : Grows p (fail e : Prog σ ε α) := fun s => by simp [Prog.fail]

theorem grows_lift (r : Except ε α) : Grows p (lift r : Prog σ ε α) := by
  cases r with
  | ok a => exact grows_pure a
  | error e => exact grows_fail e

theorem grows_step {cuts : σ → List σ} {f : σ → σ}
    (h : ∀ s, (s :: (cuts s ++ [f s])).Pairwise fun x y => p x → p y) :
    Grows p (step cuts f : Prog σ ε PUnit) := h

theorem grows_write {f : σ → σ} (h : ∀ s, p s → p (f s)) :
    Grows p (write f : Prog σ ε PUnit) :=
  grows_step fun s => by simpa using h s

theorem grows_bind {m : Prog σ ε α} {f : α → Prog σ ε β} (hm : Grows p m)
    (hf : ∀ a, Grows p (f a)) : Grows p (m >>= f) := by
  intro s
  rw [run_bind]
  have hfirst := hm s
  cases hran : m.run s with
  | mk stops value disk =>
    rw [hran] at hfirst
    cases value with
    | error e => exact hfirst
    | ok a =>
      -- What the first part passes through leads to its end, and from there on.
      have hsecond := List.pairwise_cons.mp (hf a disk)
      have hsplit : ((s :: stops) ++ [disk]).Pairwise fun x y => p x → p y := hfirst
      obtain ⟨hstops, -, hend⟩ := List.pairwise_append.mp hsplit
      have hwhole : ((s :: stops) ++ (((f a).run disk).stops ++
          [((f a).run disk).disk])).Pairwise fun x y => p x → p y := by
        refine List.pairwise_append.mpr ⟨hstops, hsecond.2, ?_⟩
        intro x hx y hy h
        exact hsecond.1 y hy (hend x hx disk (by simp) h)
      simpa [andThen] using hwhole

theorem grows_before {c : Prop} [Decidable c] {m : Prog σ ε α} {k : Prog σ ε β}
    (hm : Grows p m) (hk : Grows p k) : Grows p (if c then m >>= fun _ => k else k) := by
  split
  · exact grows_bind hm fun _ => hk
  · exact hk

theorem grows_forM {f : α → Prog σ ε PUnit} (hf : ∀ a, Grows p (f a)) (l : List α) :
    Grows p (forM l f) := by
  induction l with
  | nil => exact grows_pure _
  | cons a l ih =>
    rw [List.forM_cons]
    exact grows_bind (hf a) fun _ => ih

end Grows

/-- A loop that fails ran its body over a part of the list and failed on the next. -/
theorem forM_eq_error {l : List α} {f : α → Prog σ ε PUnit} {s : σ} {e : ε}
    (h : ((forM l f).run s).value = .error e) :
    ∃ done a rest, l = done ++ a :: rest ∧ ((forM done f).run s).value = .ok ⟨⟩ ∧
      ((f a).run ((forM done f).run s).disk).value = .error e ∧
      ((forM l f).run s).disk = ((f a).run ((forM done f).run s).disk).disk := by
  induction l generalizing s with
  | nil => cases h
  | cons a l ih =>
    rw [List.forM_cons, run_bind] at h
    cases ha : (f a).run s with
    | mk stops value disk =>
      rw [ha] at h
      cases value with
      | error e' =>
        cases h
        refine ⟨[], a, l, rfl, rfl, ?_, ?_⟩
        · show ((f a).run s).value = _
          rw [ha]
        · rw [List.forM_cons, run_bind, ha]
          show disk = ((f a).run s).disk
          rw [ha]
      | ok u =>
        obtain ⟨done, b, rest, rfl, hdone, hb, hdisk⟩ := ih h
        have hrun : (forM (a :: done) f).run s =
            andThen ⟨stops, .ok u, disk⟩ fun _ => forM done f := by
          rw [List.forM_cons, run_bind, ha]
        refine ⟨a :: done, b, rest, rfl, ?_, ?_, ?_⟩
        · rw [hrun]
          exact hdone
        · rw [hrun]
          exact hb
        · rw [List.forM_cons, run_bind, ha, hrun]
          exact hdisk

/-! ## Where a run ends -/

/-- A run from `s` ends with an answer on `t`, whatever a stop leaves in between. -/
def Ends (m : Prog σ ε α) (s : σ) (v : Except ε α) (t : σ) : Prop :=
  (m.run s).value = v ∧ (m.run s).disk = t

section Ends

variable {m : Prog σ ε α} {f : α → Prog σ ε β} {s t u : σ}

theorem ends_of_run {stops : List σ} {v : Except ε α} (h : m.run s = ⟨stops, v, t⟩) :
    Ends m s v t := by
  rw [Ends, h]
  exact ⟨rfl, rfl⟩

/-- A run that only read ends where it started. -/
theorem ends_of_quiet {v : Except ε α} (h : m.run s = ⟨[], v, s⟩) : Ends m s v s := ends_of_run h

theorem Ends.bind {a : α} {v : Except ε β} (hm : Ends m s (.ok a) t) (hf : Ends (f a) t v u) :
    Ends (m >>= f) s v u := by
  obtain ⟨hvalue, rfl⟩ := hm
  unfold Ends
  rw [run_bind, andThen, hvalue]
  exact hf

theorem Ends.bind_error {e : ε} (hm : Ends m s (.error e) t) :
    Ends (m >>= f) s (.error e) t := by
  obtain ⟨hvalue, hdisk⟩ := hm
  unfold Ends
  rw [run_bind, andThen, hvalue]
  exact ⟨rfl, hdisk⟩

/-- A run that ends with a value went through its first part. -/
theorem Ends.of_bind {b : β} (h : Ends (m >>= f) s (.ok b) u) :
    ∃ a t, Ends m s (.ok a) t ∧ Ends (f a) t (.ok b) u := by
  unfold Ends at h ⊢
  rw [run_bind, andThen] at h
  cases hvalue : (m.run s).value with
  | ok a =>
    rw [hvalue] at h
    exact ⟨a, _, ⟨rfl, rfl⟩, h⟩
  | error e =>
    rw [hvalue] at h
    cases h.1

theorem ends_write (f : σ → σ) (s : σ) : Ends (write f : Prog σ ε PUnit) s (.ok ⟨⟩) (f s) :=
  ⟨rfl, rfl⟩

end Ends

/-! ## Stopped and started again -/

/-- What any number of stopped runs of `m`, each started on what the one before left, can
leave. -/
inductive Stopped (m : Prog σ ε α) (s : σ) : σ → Prop
  | none : Stopped m s s
  | again {t u : σ} : Stopped m s t → u ∈ (m.run t).stops → Stopped m s u

/-- A condition that every stop of `m` keeps survives any number of stopped runs. -/
theorem Stopped.keeps {m : Prog σ ε α} {C : σ → Prop} {s t : σ} (h : Stopped m s t)
    (hC : ∀ s, C s → ∀ t ∈ (m.run s).stops, C t) (hs : C s) : C t := by
  induction h with
  | none => exact hs
  | again _ hu ih => exact hC _ ih _ hu

/-! ## Replaying assignments -/

section Replay

variable {κ : Type*} {γ : Type*} [DecidableEq κ]

/-- Assign the values of a list to their keys, one after the other. -/
def replay (ws : List (κ × γ)) (m : κ → Option γ) : κ → Option γ :=
  ws.foldl (fun m w => Function.update m w.1 (some w.2)) m

@[simp] theorem replay_nil (m : κ → Option γ) : replay [] m = m := rfl

@[simp] theorem replay_cons (w : κ × γ) (ws : List (κ × γ)) (m : κ → Option γ) :
    replay (w :: ws) m = replay ws (Function.update m w.1 (some w.2)) := rfl

theorem replay_append (ws vs : List (κ × γ)) (m : κ → Option γ) :
    replay (ws ++ vs) m = replay vs (replay ws m) := by
  simp [replay, List.foldl_append]

/-- A key that no assignment names keeps its value. -/
theorem replay_other {ws : List (κ × γ)} {k : κ} (h : ∀ w ∈ ws, w.1 ≠ k)
    (m : κ → Option γ) : replay ws m k = m k := by
  induction ws generalizing m with
  | nil => rfl
  | cons w ws ih =>
    rw [replay_cons, ih (fun v hv => h v (List.mem_cons_of_mem _ hv)),
      Function.update_of_ne (h w List.mem_cons_self).symm]

/-- An assigned key ends with the same value from any two starts. -/
theorem replay_named {ws : List (κ × γ)} {k : κ} (h : ∃ w ∈ ws, w.1 = k)
    (m m' : κ → Option γ) : replay ws m k = replay ws m' k := by
  induction ws generalizing m m' with
  | nil => simp at h
  | cons w ws ih =>
    rw [replay_cons, replay_cons]
    by_cases hws : ∃ v ∈ ws, v.1 = k
    · exact ih hws _ _
    · have hother : ∀ v ∈ ws, v.1 ≠ k := fun v hv hk => hws ⟨v, hv, hk⟩
      obtain ⟨v, hv, hk⟩ := h
      rcases List.mem_cons.mp hv with rfl | hv
      · rw [replay_other hother, replay_other hother, hk, Function.update_self,
          Function.update_self]
      · exact absurd ⟨v, hv, hk⟩ hws

/-- With distinct keys, each key ends with its own value. -/
theorem replay_of_mem {ws : List (κ × γ)} (hnodup : (ws.map Prod.fst).Nodup) {w : κ × γ}
    (h : w ∈ ws) (m : κ → Option γ) : replay ws m w.1 = some w.2 := by
  induction ws generalizing m with
  | nil => simp at h
  | cons v ws ih =>
    rw [List.map_cons, List.nodup_cons] at hnodup
    rw [replay_cons]
    rcases List.mem_cons.mp h with rfl | hw
    · rw [replay_other, Function.update_self]
      intro u hu hk
      exact hnodup.1 (hk ▸ List.mem_map_of_mem hu)
    · exact ih hnodup.2 hw _

/-- With distinct keys, a part of the assignments leaves each key as it was or with the
value the whole list gives it. -/
theorem replay_prefix {ws us vs : List (κ × γ)} (hnodup : (ws.map Prod.fst).Nodup)
    (h : ws = us ++ vs) (m m' : κ → Option γ) (k : κ) :
    replay us m k = m k ∨ replay us m k = replay ws m' k := by
  by_cases hk : ∃ w ∈ us, w.1 = k
  · right
    obtain ⟨w, hw, rfl⟩ := hk
    have hus : (us.map Prod.fst).Nodup := by
      rw [h, List.map_append] at hnodup
      exact (List.nodup_append.mp hnodup).1
    have hws : w ∈ ws := h ▸ List.mem_append_left vs hw
    rw [replay_of_mem hus hw, replay_of_mem hnodup hws]
  · left
    exact replay_other (fun w hw hwk => hk ⟨w, hw, hwk⟩) m

/-- THE REDO FACT: whatever part of a list of assignments was written before, writing the
whole list ends where it ends from the start. -/
theorem replay_of_suffix {ws vs us : List (κ × γ)} (h : ws = us ++ vs) (m : κ → Option γ) :
    replay ws (replay us m) = replay ws m := by
  funext k
  by_cases hk : ∃ w ∈ ws, w.1 = k
  · exact replay_named hk _ _
  · have hother : ∀ w ∈ ws, w.1 ≠ k := fun w hw hwk => hk ⟨w, hw, hwk⟩
    rw [replay_other hother, replay_other hother,
      replay_other (fun w hw => hother w (h ▸ List.mem_append_left vs hw))]

end Replay

end Lib.Crash
