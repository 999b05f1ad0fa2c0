import Mathlib.Data.List.Infix
import Orqalis.Lib.Text

/-!
# Markers in a text

A marker is a separator whose first character comes only first in it, so that no two occurrences
of markers overlap: a text is searched part by part where each part begins with that character
(`infix_append`, `splitOnce_skip`).
-/

namespace Lib.Text

variable {m : Char} {s t a b c : List Char}

/-- An occurrence in two texts, the second of which begins as a marker does, is one in either. -/
theorem infix_append (hm : m ∉ s) :
    (m :: s) <:+: a ++ m :: b ↔ (m :: s) <:+: a ∨ (m :: s) <:+: m :: b := by
  constructor
  · rintro ⟨x, y, h⟩
    rw [List.append_assoc] at h
    rcases List.append_eq_append_iff.mp h with ⟨u, rfl, hu⟩ | ⟨u, rfl, hu⟩
    · -- it begins in the first text, and so ends there
      rcases List.append_eq_append_iff.mp hu with ⟨v, rfl, -⟩ | ⟨v, hv, hv'⟩
      · exact .inl ⟨x, v, by rw [List.append_assoc]⟩
      · cases v with
        | nil =>
          rw [List.append_nil] at hv
          exact .inl ⟨x, [], by rw [hv, List.append_nil]⟩
        | cons d v =>
          have hd : d = m := (List.cons.inj hv').1.symm
          cases u with
          | nil => exact .inr ⟨[], y, by rw [List.nil_append]; exact hu.symm ▸ rfl⟩
          | cons e u =>
            have hmem : m ∈ s := by
              rw [(List.cons.inj hv).2, hd]
              exact List.mem_append_right u List.mem_cons_self
            exact absurd hmem hm
    · exact .inr ⟨u, y, by rw [List.append_assoc]; exact hu.symm⟩
  · rintro (h | h)
    · exact h.trans (List.infix_append' [] a (m :: b))
    · exact h.trans ⟨a, [], by rw [List.append_nil]⟩

/-- An occurrence begins at the first character of a marker. -/
theorem infix_of_notMem (ha : m ∉ a) (h : (m :: s) <:+: a ++ b) : (m :: s) <:+: b := by
  induction a with
  | nil => exact h
  | cons c a ih =>
    rw [List.mem_cons, not_or] at ha
    rw [List.cons_append] at h
    rcases List.infix_cons_iff.mp h with ⟨y, hy⟩ | h
    · exact absurd (List.cons.inj hy).1 ha.1
    · exact ih ha.2 h

/-- An occurrence is not in characters that the marker does not have. -/
theorem infix_append_blank (hne : t ≠ []) (h : ∀ c ∈ b, c ∉ t) (hoccurs : t <:+: a ++ b) :
    t <:+: a := by
  obtain ⟨x, y, hxy⟩ := hoccurs
  have hlast := t.getLast_mem hne
  rcases List.append_eq_append_iff.mp hxy with ⟨u, rfl, -⟩ | ⟨u, hu, hb⟩
  · exact ⟨x, u, rfl⟩
  · cases u with
    | nil =>
      rw [List.append_nil] at hu
      exact ⟨x, [], by rw [List.append_nil, hu]⟩
    | cons c u =>
      have hend : (x ++ t).getLast (by simp [hne]) = (a ++ c :: u).getLast (by simp) := by
        simp only [hu]
      rw [List.getLast_append_of_ne_nil _ hne, List.getLast_append_of_ne_nil _ (by simp)] at hend
      have hmem : t.getLast hne ∈ b := by
        rw [hend, hb]
        exact List.mem_append_left y (List.getLast_mem _)
      exact absurd hlast (h _ hmem)

theorem splitOnce_nil (hne : t ≠ []) : splitOnce t [] = none := if_neg hne

theorem splitOnce_append (hne : t ≠ []) (b : List Char) : splitOnce t (t ++ b) = some ([], b) := by
  obtain ⟨c, t, rfl⟩ := List.exists_cons_of_ne_nil hne
  have hstart : c :: t <+: c :: (t ++ b) := ⟨b, rfl⟩
  rw [List.cons_append, splitOnce, if_pos hstart, List.length_cons, List.drop_succ_cons,
    List.drop_left]

/-- A marker is found after a text that does not hold it. -/
theorem splitOnce_skip (hm : m ∉ s) (ha : ¬ (m :: s) <:+: a) (b : List Char) :
    splitOnce (m :: s) (a ++ m :: b) =
      (splitOnce (m :: s) (m :: b)).map fun p => (a ++ p.1, p.2) := by
  induction a with
  | nil => cases h : splitOnce (m :: s) (m :: b) <;> simp [h]
  | cons c a ih =>
    have hstart' : ¬ (m :: s) <+: c :: (a ++ m :: b) := by
      intro hstart
      have hcons : c :: (a ++ m :: b) = (c :: a) ++ m :: b := rfl
      obtain ⟨y, hy⟩ := hstart
      rw [hcons] at hy
      rcases List.append_eq_append_iff.mp hy with ⟨v, hv, -⟩ | ⟨v, hv, hv'⟩
      · exact ha ⟨[], v, hv.symm⟩
      · cases v with
        | nil =>
          rw [List.append_nil] at hv
          exact ha ⟨[], [], by rw [List.append_nil]; exact hv⟩
        | cons d v =>
          have hd : d = m := (List.cons.inj hv').1.symm
          have hmem : m ∈ s := by
            rw [(List.cons.inj hv).2, hd]
            exact List.mem_append_right a List.mem_cons_self
          exact hm hmem
    rw [List.cons_append, splitOnce, if_neg hstart',
      ih fun h => ha (h.trans (List.infix_cons List.infix_rfl)), Option.map_map]
    rfl

/-- A marker that a text does not hold is not found. -/
theorem splitOnce_eq_none (hne : t ≠ []) (h : ¬ t <:+: a) : splitOnce t a = none := by
  induction a with
  | nil => exact splitOnce_nil hne
  | cons c a ih =>
    have hstart' : ¬ t <+: c :: a := fun hstart => h hstart.isInfix
    rw [splitOnce, if_neg hstart', ih fun h' => h (h'.trans (List.infix_cons List.infix_rfl))]
    rfl

end Lib.Text
