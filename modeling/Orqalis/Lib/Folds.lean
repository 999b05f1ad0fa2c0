import Mathlib.Data.List.Induction
import Orqalis.Lib.Table

/-!
# What a pass over a list comes to

A pass that adds to a state: what holds of the state afterwards held before or comes from one of
the values.
-/

namespace Lib

variable {α β κ : Type*}

/-- Where each step adds what one value brings, a pass adds what its values bring. -/
theorem foldl_iff {f : β → α → β} {P : β → Prop} {Q : α → Prop} {l : List α}
    (h : ∀ b, ∀ x ∈ l, P (f b x) ↔ P b ∨ Q x) (b : β) :
    P (l.foldl f b) ↔ P b ∨ ∃ x ∈ l, Q x := by
  induction l generalizing b with
  | nil => simp
  | cons x l ih =>
    rw [List.foldl_cons, ih (fun b y hy => h b y (List.mem_cons_of_mem x hy)),
      h b x List.mem_cons_self, or_assoc]
    simp

/-- What every step keeps, a pass keeps. -/
theorem foldl_keeps {f : β → α → β} {P : β → Prop} {l : List α}
    (h : ∀ b, ∀ x ∈ l, P b → P (f b x)) {b : β} (hb : P b) : P (l.foldl f b) := by
  induction l generalizing b with
  | nil => exact hb
  | cons x l ih =>
    exact ih (fun b y hy => h b y (List.mem_cons_of_mem x hy)) (h b x List.mem_cons_self hb)

/-- Under an invariant, what each step brings about for its value and every step keeps holds in
the end of all values. -/
theorem foldl_all {f : β → α → β} {I : β → Prop} {Q : α → β → Prop} {l : List α}
    (hI : ∀ b, ∀ x ∈ l, I b → I (f b x)) (hnew : ∀ b, ∀ x ∈ l, I b → Q x (f b x))
    (hkeep : ∀ b, ∀ x ∈ l, I b → ∀ y, Q y b → Q y (f b x)) {b : β} (hb : I b) :
    I (l.foldl f b) ∧ ∀ x ∈ l, Q x (l.foldl f b) := by
  refine ⟨foldl_keeps hI hb, ?_⟩
  induction l generalizing b with
  | nil => simp
  | cons x l ih =>
    have hx : I (f b x) ∧ Q x (f b x) :=
      ⟨hI b x List.mem_cons_self hb, hnew b x List.mem_cons_self hb⟩
    have hI' := fun b y (hy : y ∈ l) => hI b y (List.mem_cons_of_mem x hy)
    have hkeep' := fun b y (hy : y ∈ l) => hkeep b y (List.mem_cons_of_mem x hy)
    intro y hy
    rcases List.mem_cons.mp hy with rfl | hy
    · exact (foldl_keeps (P := fun b => I b ∧ Q y b)
        (fun b z hz h => ⟨hI' b z hz h.1, hkeep' b z hz h.1 y h.2⟩) hx).2
    · exact ih hI' (fun b z hz => hnew b z (List.mem_cons_of_mem x hz)) hkeep' hx.1 y hy

/-- A part of the state that each step changes by itself. -/
theorem foldl_project {γ : Type*} {f : β → α → β} {g : γ → α → γ} {p : β → γ}
    (h : ∀ b x, p (f b x) = g (p b) x) (l : List α) (b : β) :
    p (l.foldl f b) = l.foldl g (p b) := by
  induction l generalizing b with
  | nil => rfl
  | cons x l ih => rw [List.foldl_cons, List.foldl_cons, ih, h]

/-- A lookup in the table of a list finds a value just where no later one has its key. -/
theorem Table.get?_ofList_eq_some [DecidableEq κ] {key : α → κ} {l : List α} {k : κ} {x : α} :
    (ofList l : Table key).get? k = some x ↔
      ∃ before after, l = before ++ x :: after ∧ key x = k ∧ ∀ y ∈ after, key y ≠ k := by
  constructor
  · induction l using List.reverseRecOn with
    | nil =>
      intro h
      cases h
    | append_singleton l y ih =>
      intro h
      have hput : (ofList (l ++ [y]) : Table key) = (ofList l).put y :=
        List.foldl_concat put empty y l
      rw [hput, get?_put] at h
      split_ifs at h with hk
      · cases h
        exact ⟨l, [], rfl, hk, by simp⟩
      · obtain ⟨before, after, rfl, hx, hafter⟩ := ih h
        refine ⟨before, after ++ [y], by simp, hx, fun z hz => ?_⟩
        rcases List.mem_append.mp hz with hz | hz
        · exact hafter z hz
        · rw [List.mem_singleton.mp hz]
          exact hk
  · rintro ⟨before, after, rfl, rfl, hafter⟩
    exact get?_ofList_of_last hafter

end Lib
