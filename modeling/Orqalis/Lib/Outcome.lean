import Mathlib.Data.List.Basic

/-!
# Computations that may fail

Inversion rules for `Except`: a sequence that succeeds passed through a success of its
first part.
-/

namespace Lib.Outcome

variable {ε : Type*} {α β : Type*}

/-- A sequence succeeds through a success of its first part. -/
theorem bind_eq_ok {ε α β : Type _} {m : Except ε α} {f : α → Except ε β} {b : β} :
    (m >>= f) = .ok b ↔ ∃ a, m = .ok a ∧ f a = .ok b := by
  constructor
  · intro h
    cases m with
    | error e => cases h
    | ok a => exact ⟨a, rfl, h⟩
  · intro ⟨a, hm, hf⟩
    rw [hm]
    exact hf

/-- A success goes on with its value. -/
theorem ok_bind {ε α β : Type _} {a : α} {f : α → Except ε β} :
    ((.ok a : Except ε α) >>= f) = f a := rfl

/-- A mapped success is the image of a success. -/
theorem map_eq_ok {m : Except ε α} {f : α → β} {b : β} :
    m.map f = .ok b ↔ ∃ a, m = .ok a ∧ f a = b := by
  cases m <;> simp [Except.map]

/-- Mapping keeps an error. -/
theorem map_eq_error {m : Except ε α} {f : α → β} {e : ε} :
    m.map f = .error e ↔ m = .error e := by
  cases m <;> simp [Except.map]

/-- A guarded success passed its guard. -/
theorem ite_error_eq_ok {c : Prop} [Decidable c] {e : ε} {m : Except ε α} {a : α} :
    (if c then .error e else m) = .ok a ↔ ¬ c ∧ m = .ok a := by
  split_ifs with h <;> simp [h]

/-- A success that needs a condition has it. -/
theorem ite_ok_eq_ok {c : Prop} [Decidable c] {e : ε} {m : Except ε α} {a : α} :
    (if c then m else .error e) = .ok a ↔ c ∧ m = .ok a := by
  split_ifs with h <;> simp [h]

/-- Mapping a function that succeeds everywhere. -/
theorem mapM_eq_ok_of_forall {ε α β : Type _} {f : α → Except ε β} {g : α → β} {l : List α}
    (h : ∀ a ∈ l, f a = .ok (g a)) : l.mapM f = .ok (l.map g) := by
  induction l with
  | nil => rfl
  | cons a l ih =>
    rw [List.mapM_cons, h a List.mem_cons_self,
      ih fun b hb => h b (List.mem_cons_of_mem _ hb)]
    rfl

/-- A map that succeeds succeeded on every element. -/
theorem forall₂_of_mapM_eq_ok {ε α β : Type _} {f : α → Except ε β} {l : List α}
    {l' : List β} (h : l.mapM f = .ok l') : List.Forall₂ (fun a b => f a = .ok b) l l' := by
  induction l generalizing l' with
  | nil =>
    cases h
    exact .nil
  | cons a l ih =>
    rw [List.mapM_cons] at h
    obtain ⟨b, hb, h⟩ := bind_eq_ok.mp h
    obtain ⟨bs, hbs, h⟩ := bind_eq_ok.mp h
    cases h
    exact .cons hb (ih hbs)

/-- What a map answers comes from an element. -/
theorem exists_of_mapM_eq_ok {ε α β : Type _} {f : α → Except ε β} {l : List α} {l' : List β}
    (h : l.mapM f = .ok l') {b : β} (hb : b ∈ l') : ∃ a ∈ l, f a = .ok b := by
  have hall := forall₂_of_mapM_eq_ok h
  clear h
  induction hall with
  | nil => cases hb
  | @cons a c l l' hac _ ih =>
    rcases List.mem_cons.mp hb with rfl | hb
    · exact ⟨a, List.mem_cons_self, hac⟩
    · obtain ⟨a', ha', hf⟩ := ih hb
      exact ⟨a', List.mem_cons_of_mem a ha', hf⟩

/-- A list fails with the error of one of its members. -/
theorem exists_of_mapM_eq_error {ε α β : Type _} {f : α → Except ε β} {l : List α} {e : ε}
    (h : l.mapM f = .error e) : ∃ a ∈ l, f a = .error e := by
  induction l with
  | nil => cases h
  | cons a l ih =>
    rw [List.mapM_cons] at h
    cases ha : f a with
    | error e' =>
      rw [ha] at h
      cases h
      exact ⟨a, List.mem_cons_self, ha⟩
    | ok b =>
      rw [ha] at h
      cases hl : l.mapM f with
      | ok bs =>
        rw [hl] at h
        cases h
      | error e' =>
        rw [hl] at h
        cases h
        obtain ⟨a', ha', hf⟩ := ih hl
        exact ⟨a', List.mem_cons_of_mem _ ha', hf⟩

end Lib.Outcome
