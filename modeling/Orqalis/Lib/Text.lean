import Orqalis.Lib.Json
import Mathlib.Data.List.DropRight

/-!
# Text as a file holds it

White space at the ends of a text, the line ends of a text file, and the first place a
separator stands. A text is the list of its characters.
-/

namespace Lib.Text

/-- The white space of `str.strip`. -/
def space (c : Char) : Bool :=
  let n := c.toNat
  (9 ≤ n && n ≤ 13) || (28 ≤ n && n ≤ 32) || n = 0x85 || n = 0xA0 || n = 0x1680 ||
    (0x2000 ≤ n && n ≤ 0x200A) || n = 0x2028 || n = 0x2029 || n = 0x202F || n = 0x205F ||
    n = 0x3000

/-- A text of white space alone. -/
def blank (s : List Char) : Bool := s.all space

/-- `str.rstrip`. -/
def rstrip (s : List Char) : List Char := s.rdropWhile space

/-- `str.strip`. -/
def strip (s : List Char) : List Char := rstrip (s.dropWhile space)

/-- Universal newlines: what reading a text file makes of its line ends. -/
def newlines : List Char → List Char
  | [] => []
  | '\r' :: '\n' :: s => '\n' :: newlines s
  | '\r' :: s => '\n' :: newlines s
  | c :: s => c :: newlines s

/-- The text before the first occurrence of a separator and the text after it. -/
def splitOnce (sep : List Char) : List Char → Option (List Char × List Char)
  | [] => if sep = [] then some ([], []) else none
  | c :: s =>
    if sep <+: c :: s then some ([], (c :: s).drop sep.length)
    else (splitOnce sep s).map fun p => (c :: p.1, p.2)

/-! ## White space -/

theorem blank_append (s t : List Char) : blank (s ++ t) = (blank s && blank t) := by
  simp [blank]

theorem rstrip_eq_nil {s : List Char} : rstrip s = [] ↔ blank s := by
  simp [rstrip, blank, List.rdropWhile_eq_nil_iff]

/-- What follows the last character that is no white space is dropped. -/
theorem rstrip_append_blank (s : List Char) {t : List Char} (h : blank t) :
    rstrip (s ++ t) = rstrip s := by
  induction t using List.reverseRecOn with
  | nil => simp
  | append_singleton t c ih =>
    rw [blank_append] at h
    obtain ⟨ht, hc⟩ := Bool.and_eq_true_iff.mp h
    have hspace : space c = true := by simpa [blank] using hc
    rw [← List.append_assoc]
    exact (List.rdropWhile_concat_pos space _ _ hspace).trans (ih ht)

theorem rstrip_append (s : List Char) {t : List Char} (h : blank t = false) :
    rstrip (s ++ t) = s ++ rstrip t := by
  induction t using List.reverseRecOn with
  | nil => simp [blank] at h
  | append_singleton t c ih =>
    by_cases hc : space c = true
    · have ht : blank t = false := by simpa [blank_append, blank, hc] using h
      have hlast : blank [c] = true := by simpa [blank] using hc
      rw [← List.append_assoc, rstrip_append_blank _ hlast, rstrip_append_blank _ hlast, ih ht]
    · have hlast : rstrip (t ++ [c]) = t ++ [c] :=
        List.rdropWhile_concat_neg space _ _ hc
      have hwhole : rstrip ((s ++ t) ++ [c]) = (s ++ t) ++ [c] :=
        List.rdropWhile_concat_neg space _ _ hc
      rw [hlast, ← List.append_assoc, hwhole]

theorem strip_blank_append {s : List Char} (h : blank s) (t : List Char) :
    strip (s ++ t) = strip t := by
  unfold strip
  rw [List.dropWhile_append_of_pos (by simpa [blank] using h)]

theorem strip_append_blank (s : List Char) {t : List Char} (h : blank t) :
    strip (s ++ t) = strip s := by
  by_cases hs : blank s = true
  · rw [strip_blank_append hs]
    have hnil : ∀ u, blank u = true → strip u = [] := by
      intro u hu
      have := strip_blank_append hu []
      simpa [strip, rstrip] using this
    rw [hnil t h, hnil s hs]
  · have hdrop : (s ++ t).dropWhile space = s.dropWhile space ++ t := by
      rw [List.dropWhile_append]
      simp only [List.isEmpty_iff, List.dropWhile_eq_nil_iff]
      rw [if_neg]
      simpa [blank] using hs
    unfold strip
    rw [hdrop, rstrip_append_blank _ h]

theorem strip_eq_nil {s : List Char} : strip s = [] ↔ blank s := by
  constructor
  · intro h
    have hdrop : blank (s.dropWhile space) := rstrip_eq_nil.mp h
    cases hs : s.dropWhile space with
    | nil => simpa [blank] using List.dropWhile_eq_nil_iff.mp hs
    | cons c t =>
      rw [hs] at hdrop
      have hc : space c = true := by
        simp only [blank, List.all_cons, Bool.and_eq_true] at hdrop
        exact hdrop.1
      have hfirst := List.head_dropWhile_not space (l := s) (by simp [hs])
      simp [hs, hc] at hfirst
  · intro h
    have hstrip := strip_blank_append h []
    simpa [strip, rstrip] using hstrip

theorem rstrip_cons {c : Char} (h : space c = false) (s : List Char) :
    rstrip (c :: s) = c :: rstrip s := by
  by_cases hs : blank s = true
  · have hlast : rstrip [c] = [c] := by simp [rstrip, List.rdropWhile_singleton, h]
    have hwhole := rstrip_append_blank [c] hs
    rw [List.singleton_append] at hwhole
    rw [hwhole, hlast, rstrip_eq_nil.mpr hs]
  · exact rstrip_append [c] (by simpa using hs)

theorem strip_cons {c : Char} (h : space c = false) (s : List Char) :
    strip (c :: s) = c :: rstrip s := by
  have hdrop : (c :: s).dropWhile space = c :: s := by simp [h]
  rw [strip, hdrop, rstrip_cons h]

theorem rstrip_rstrip (s : List Char) : rstrip (rstrip s) = rstrip s :=
  List.rdropWhile_idempotent space s

theorem blank_rstrip (s : List Char) : blank (rstrip s) = blank s := by
  rw [Bool.eq_iff_iff, ← rstrip_eq_nil, rstrip_rstrip, rstrip_eq_nil]

theorem strip_rstrip (s : List Char) : strip (rstrip s) = strip s := by
  have hblank : blank (s.rtakeWhile space) = true :=
    List.all_eq_true.mpr fun c hc => List.mem_rtakeWhile_imp hc
  have hwhole := strip_append_blank (rstrip s) hblank
  rw [← hwhole, rstrip, List.rdropWhile_append_rtakeWhile]

theorem rstrip_initial (s : List Char) : rstrip s <+: s := List.rdropWhile_prefix space s

theorem strip_strip (s : List Char) : strip (strip s) = strip s := by
  cases hs : s.dropWhile space with
  | nil =>
    have hnil : strip s = [] := by simp [strip, hs, rstrip]
    rw [hnil]
    rfl
  | cons c t =>
    have hc : space c = false := by
      have hfirst := List.head_dropWhile_not space (l := s) (by simp [hs])
      simpa [hs] using hfirst
    have hstrip : strip s = c :: rstrip t := by rw [strip, hs, rstrip_cons hc]
    rw [hstrip, strip_cons hc, rstrip_rstrip]

theorem strip_subset (s : List Char) : strip s ⊆ s := fun _ hc =>
  (List.dropWhile_suffix space).subset ((rstrip_initial _).subset hc)

theorem blank_strip {s : List Char} (h : strip s ≠ []) : blank (strip s) = false := by
  rw [Bool.eq_false_iff]
  intro hblank
  rw [← strip_strip] at h
  exact h (strip_eq_nil.mpr hblank)

theorem rstrip_of_strip {s : List Char} (h : strip s = s) : rstrip s = s := by
  rw [← h]
  exact rstrip_rstrip _

/-! ## Line ends -/

theorem notMem_newlines (s : List Char) : '\r' ∉ newlines s := by
  fun_induction newlines s with
  | case1 => simp
  | case2 s ih => simpa using ih
  | case3 s hs ih => simpa using ih
  | case4 c s hlf hcr ih =>
    simp only [List.mem_cons, not_or]
    exact ⟨fun h => hcr h.symm, ih⟩

theorem newlines_append {s : List Char} (h : '\r' ∉ s) (t : List Char) :
    newlines (s ++ t) = s ++ newlines t := by
  induction s with
  | nil => rfl
  | cons c s ih =>
    obtain ⟨hc, hs⟩ := not_or.mp (List.mem_cons.not.mp h)
    rw [List.cons_append, newlines]
    · rw [ih hs, List.cons_append]
    · rintro u rfl -
      exact hc rfl
    · rintro rfl
      exact hc rfl

theorem newlines_eq_self {s : List Char} (h : '\r' ∉ s) : newlines s = s := by
  simpa [newlines] using newlines_append h []

theorem blank_newlines (s : List Char) : blank (newlines s) = blank s := by
  fun_induction newlines s with
  | case1 => rfl
  | case2 s ih => simpa [blank, space] using ih
  | case3 s hs ih => simpa [blank, space] using ih
  | case4 c s hlf hcr ih =>
    have ih' : (newlines s).all space = s.all space := ih
    simp [blank, ih']

/-- A line feed is the last character of what stands before it, whatever follows. -/
theorem newlines_append_line (s t : List Char) :
    newlines (s ++ '\n' :: t) = newlines (s ++ ['\n']) ++ newlines t := by
  fun_induction newlines s with
  | case1 => simp [newlines]
  | case2 s ih => simpa [newlines] using ih
  | case3 s hs ih =>
    cases s with
    | nil => simp [newlines]
    | cons d s =>
      have hd : ∀ v u : List Char, d :: v ≠ '\n' :: u := by
        rintro v u ⟨rfl, -⟩
        exact hs s rfl
      have hleft := newlines.eq_3 (d :: (s ++ '\n' :: t)) (hd _)
      have hright := newlines.eq_3 (d :: (s ++ ['\n'])) (hd _)
      simp only [List.cons_append] at ih ⊢
      rw [hleft, hright, ih, List.cons_append]
  | case4 c s hlf hcr ih =>
    rw [List.cons_append, List.cons_append, newlines, newlines]
    · rw [ih, List.cons_append]
    all_goals first | exact hcr | exact fun _ h _ => hcr h

/-! ## Separators -/

theorem splitOnce_of_calm {a : List Char} (h : Json.Calm a) (sep b : List Char) :
    splitOnce ('\n' :: '-' :: sep) (a ++ '\n' :: '-' :: (sep ++ b)) = some (a, b) := by
  obtain ⟨-, hchain, -⟩ := h
  induction a with
  | nil => simp [splitOnce]
  | cons c a ih =>
    have hnot : ¬ ('\n' :: '-' :: sep) <+: c :: (a ++ '\n' :: '-' :: (sep ++ b)) := by
      intro hpre
      obtain ⟨rfl, hpre⟩ := List.cons_prefix_cons.mp hpre
      cases a with
      | nil => simp at hpre
      | cons d a =>
        have hd := (List.cons_prefix_cons.mp (List.cons_prefix_cons.mp hpre).2).1
        subst hd
        exact (List.isChain_cons_cons.mp hchain).1 rfl rfl
    rw [List.cons_append, splitOnce, if_neg hnot, ih hchain.tail]
    rfl

end Lib.Text
