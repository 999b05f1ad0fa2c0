import Mathlib.Logic.Relation

/-!
# Systems that take steps

A system is a relation between states. What every step keeps, every run keeps; what every
step keeps while another invariant holds is kept with it.
-/

namespace Lib.System

open Relation

variable {σ : Type*} {step : σ → σ → Prop} {I J : σ → Prop} {s t : σ}

/-- Every step keeps the invariant. -/
def Preserved (step : σ → σ → Prop) (I : σ → Prop) : Prop := ∀ s t, I s → step s t → I t

/-- A run keeps what its steps keep. -/
theorem Preserved.run (h : Preserved step I) (hrun : ReflTransGen step s t) (hs : I s) : I t := by
  induction hrun with
  | refl => exact hs
  | tail _ hlast ih => exact h _ _ ih hlast

/-- An invariant that is kept where another one holds. -/
theorem Preserved.and (h : Preserved step I) (hJ : ∀ s t, I s → J s → step s t → J t) :
    Preserved step fun s => I s ∧ J s :=
  fun s t hs hstep => ⟨h s t hs.1 hstep, hJ s t hs.1 hs.2 hstep⟩

/-- A run that comes to a height it was below comes to it in some step. -/
theorem crossing (rank : σ → Nat) {n : Nat} (hrun : ReflTransGen step s t) (hs : rank s < n)
    (ht : n ≤ rank t) : ∃ u u', ReflTransGen step s u ∧ step u u' ∧ rank u < n ∧ n ≤ rank u' ∧
      ReflTransGen step u' t := by
  induction hrun with
  | refl => exact absurd ht (Nat.not_le.mpr hs)
  | @tail v t hfirst hlast ih =>
    by_cases hv : n ≤ rank v
    · obtain ⟨u, u', hsu, hstep, hu, hu', hrest⟩ := ih hv
      exact ⟨u, u', hsu, hstep, hu, hu', hrest.tail hlast⟩
    · exact ⟨v, t, hfirst, hlast, Nat.lt_of_not_le hv, ht, .refl⟩

/-! ## Machines that answer -/

variable {ι ο : Type*} {answer : σ → ι → ο × σ} {plain : ι → ο}

/-- The answers of a machine to inputs, one after another. -/
def answers (answer : σ → ι → ο × σ) : σ → List ι → List ο
  | _, [] => []
  | s, i :: inputs => (answer s i).1 :: answers answer (answer s i).2 inputs

/-- A machine whose memory never changes an answer answers as one without memory. -/
theorem answers_eq_map {inputs : List ι}
    (h : ∀ s, I s → ∀ i ∈ inputs, (answer s i).1 = plain i ∧ I (answer s i).2) (hs : I s) :
    answers answer s inputs = inputs.map plain := by
  induction inputs generalizing s with
  | nil => rfl
  | cons i inputs ih =>
    obtain ⟨heq, hnext⟩ := h s hs i List.mem_cons_self
    have hrest := ih (fun t ht j hj => h t ht j (List.mem_cons_of_mem i hj)) hnext
    rw [answers, heq, hrest, List.map_cons]

end Lib.System
