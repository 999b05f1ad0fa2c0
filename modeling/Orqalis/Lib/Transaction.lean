import Mathlib.Data.List.Basic

/-!
# Transactions

A transaction reads and changes a state and either succeeds with a value or is refused. What
a refusal leaves behind is up to its type: it may name nothing, or a state that was stored
before the refusal.

`m s = .ok (a, t)` says that `m` leads from `s` to `t` and answers `a`. The inversion rules
take such a fact apart along the text of the transaction; `Keeps R m` says that every success
of `m` leads along the relation `R`, and its rules follow the same text.
-/

namespace Lib.Transaction

variable {σ ρ ε α β : Type}

/-- A transaction over the state `σ` with refusals in `ρ`. -/
abbrev Tx (σ ρ : Type) := StateT σ (Except ρ)

/-- Read something of the state. -/
def read (f : σ → α) : Tx σ ρ α := fun s => .ok (f s, s)

/-- Change the state. -/
def change (f : σ → σ) : Tx σ ρ Unit := fun s => .ok ((), f s)

/-- Refuse. -/
def refuse (e : ρ) : Tx σ ρ α := fun _ => .error e

/-- Refuse when a condition holds. -/
def refuseIf (c : Prop) [Decidable c] (e : ρ) : Tx σ ρ Unit :=
  if c then refuse e else pure ()

/-- Refuse with what the state then is. -/
def refuseWith (f : σ → ρ) : Tx σ ρ α := fun s => .error (f s)

/-- Read something that may not be there. -/
def query (g : ε → ρ) (f : σ → Except ε α) : Tx σ ρ α := fun s =>
  match f s with
  | .ok a => .ok (a, s)
  | .error e => .error (g e)

/-- Change the state where that is possible, and answer something. -/
def update (g : ε → ρ) (f : σ → Except ε (α × σ)) : Tx σ ρ α := fun s =>
  match f s with
  | .ok (a, t) => .ok (a, t)
  | .error e => .error (g e)

/-! ## Inversion -/

section Inversion

variable {s t u : σ} {a : α} {b : β}

theorem bind_ok {m : Tx σ ρ α} {f : α → Tx σ ρ β} :
    (m >>= f) s = .ok (b, u) ↔ ∃ a t, m s = .ok (a, t) ∧ f a t = .ok (b, u) := by
  show (StateT.bind m f) s = .ok (b, u) ↔ _
  unfold StateT.bind
  cases h : m s with
  | error e => simp [bind, Except.bind]
  | ok p =>
    obtain ⟨a, t⟩ := p
    show f a t = .ok (b, u) ↔ _
    grind

/-- A sequence is refused by its first part, or by its second. -/
theorem bind_error {m : Tx σ ρ α} {f : α → Tx σ ρ β} {e : ρ} (h : (m >>= f) s = .error e) :
    m s = .error e ∨ ∃ a t, m s = .ok (a, t) ∧ f a t = .error e := by
  change StateT.bind m f s = .error e at h
  unfold StateT.bind at h
  cases hm : m s with
  | error e' =>
    rw [hm] at h
    have he : e' = e := by simpa [bind, Except.bind] using h
    exact .inl (he ▸ rfl)
  | ok p =>
    rw [hm] at h
    exact .inr ⟨p.1, p.2, rfl, h⟩

theorem pure_ok {a' : α} : (pure a : Tx σ ρ α) s = .ok (a', t) ↔ a' = a ∧ t = s := by
  show Except.ok (a, s) = .ok (a', t) ↔ _
  constructor
  · intro h
    cases h
    exact ⟨rfl, rfl⟩
  · rintro ⟨rfl, rfl⟩
    rfl

theorem read_ok {f : σ → α} : (read f : Tx σ ρ α) s = .ok (a, t) ↔ a = f s ∧ t = s :=
  pure_ok (a := f s)

theorem change_ok {f : σ → σ} {x : Unit} :
    (change f : Tx σ ρ Unit) s = .ok (x, t) ↔ t = f s := by
  unfold change
  constructor
  · intro h
    cases h
    rfl
  · rintro rfl
    rfl

theorem refuse_ok {e : ρ} : (refuse e : Tx σ ρ α) s = .ok (a, t) ↔ False := by
  unfold refuse
  simp

theorem refuseWith_ok {f : σ → ρ} : (refuseWith f : Tx σ ρ α) s = .ok (a, t) ↔ False := by
  unfold refuseWith
  simp

theorem refuseIf_ok {c : Prop} [Decidable c] {e : ρ} {x : Unit} :
    (refuseIf c e : Tx σ ρ Unit) s = .ok (x, t) ↔ ¬ c ∧ t = s := by
  unfold refuseIf
  split_ifs with h
  · simp [refuse, h]
  · simp [pure_ok, h]

theorem query_ok {g : ε → ρ} {f : σ → Except ε α} :
    query g f s = .ok (a, t) ↔ f s = .ok a ∧ t = s := by
  unfold query
  cases f s with
  | error e => simp
  | ok b => grind

theorem update_ok {g : ε → ρ} {f : σ → Except ε (α × σ)} :
    update g f s = .ok (a, t) ↔ f s = .ok (a, t) := by
  unfold update
  cases f s with
  | error e => simp
  | ok p => grind

end Inversion

/-! ## Relations kept by transactions -/

/-- Every success of the transaction leads along the relation. -/
def Keeps (R : σ → σ → Prop) (m : Tx σ ρ α) : Prop := ∀ s a t, m s = .ok (a, t) → R s t

section Keeps

variable {R : σ → σ → Prop}

theorem Keeps.bind {m : Tx σ ρ α} {f : α → Tx σ ρ β} (htrans : ∀ s t u, R s t → R t u → R s u)
    (hm : Keeps R m) (hf : ∀ a, Keeps R (f a)) : Keeps R (m >>= f) := by
  intro s b u h
  obtain ⟨a, t, hs, ht⟩ := bind_ok.mp h
  exact htrans s t u (hm s a t hs) (hf a t b u ht)

theorem Keeps.pure (hrefl : ∀ s, R s s) (a : α) : Keeps R (pure a : Tx σ ρ α) := by
  intro s b t h
  obtain ⟨-, rfl⟩ := pure_ok.mp h
  exact hrefl t

/-- A loop keeps what its body keeps. -/
theorem Keeps.forM {l : List α} {f : α → Tx σ ρ Unit} (hrefl : ∀ s, R s s)
    (htrans : ∀ s t u, R s t → R t u → R s u) (hf : ∀ a ∈ l, Keeps R (f a)) :
    Keeps R (l.forM f) := by
  induction l with
  | nil => exact Keeps.pure hrefl ()
  | cons a l ih =>
    rw [List.forM_eq_forM, List.forM_cons]
    exact Keeps.bind htrans (hf a List.mem_cons_self) fun _ =>
      ih fun b hb => hf b (List.mem_cons_of_mem a hb)

end Keeps

/-- The rule of a loop: an invariant of what is done, of what remains and of the state. -/
theorem forM_ok {l : List α} {f : α → Tx σ ρ Unit} (I : List α → σ → Prop) {s t : σ} {x : Unit}
    (h : l.forM f s = .ok (x, t)) (hs : I l s)
    (hbody : ∀ a rest s t, I (a :: rest) s → f a s = .ok ((), t) → I rest t) : I [] t := by
  induction l generalizing s with
  | nil =>
    obtain ⟨-, rfl⟩ := pure_ok.mp h
    exact hs
  | cons a l ih =>
    rw [List.forM_eq_forM, List.forM_cons] at h
    obtain ⟨y, u, hu, h⟩ := bind_ok.mp h
    exact ih h (hbody a l s u hs hu)

end Lib.Transaction
