import Mathlib.Data.List.Flatten
import Orqalis.Lib.Walk

/-!
# Disjoint simple paths

A list of arrows is a union of disjoint simple paths when its arrows are the steps of some
lists that have no place twice, and none in common. An arrow that is listed twice counts twice.

`covers_iff` is the other way to say it: no place is left twice, none is entered twice, and no
arrows lead back to where they began. For one direction the paths are built up arrow by arrow,
each joining the path that ends where it begins to the one that begins where it ends.
-/

namespace Lib.Chains

open Relation Lib.Walk

variable {ι : Type*}

/-- The arrows between the neighbours of a path. -/
def steps : List ι → List (ι × ι)
  | [] => []
  | [_] => []
  | a :: b :: rest => (a, b) :: steps (b :: rest)

/-- Some paths are simple and disjoint, and their steps are the arrows. -/
structure Covers (paths : List (List ι)) (arrows : List (ι × ι)) : Prop where
  disjoint : paths.flatten.Nodup
  arrows : arrows.Perm (paths.flatMap steps)

/-! ## The steps of a path -/

theorem steps_append (init rest : List ι) (a b : ι) :
    steps (init ++ [a] ++ b :: rest) = steps (init ++ [a]) ++ (a, b) :: steps (b :: rest) := by
  induction init with
  | nil => rfl
  | cons x init ih =>
    cases init with
    | nil => rfl
    | cons y init =>
      change (x, y) :: steps (y :: init ++ [a] ++ b :: rest) = _
      rw [ih]
      rfl

theorem fst_steps_sublist (path : List ι) : ((steps path).map Prod.fst).Sublist path := by
  induction path with
  | nil => exact .slnil
  | cons a path ih =>
    cases path with
    | nil => exact List.nil_sublist _
    | cons b rest => exact ih.cons_cons a

theorem snd_steps_sublist (path : List ι) : ((steps path).map Prod.snd).Sublist path.tail := by
  induction path with
  | nil => exact .slnil
  | cons a path ih =>
    cases path with
    | nil => exact .slnil
    | cons b rest => exact ih.cons_cons b

theorem steps_split {path : List ι} {a b : ι} (h : (a, b) ∈ steps path) :
    ∃ before after, path = before ++ a :: b :: after := by
  induction path with
  | nil => cases h
  | cons x path ih =>
    cases path with
    | nil => cases h
    | cons y rest =>
      rcases List.mem_cons.mp h with heq | h
      · cases heq
        exact ⟨[], rest, rfl⟩
      · obtain ⟨before, after, hsplit⟩ := ih h
        exact ⟨x :: before, after, by rw [hsplit]; rfl⟩

/-- A place that no step leaves is the last of its path. -/
theorem last_of_unleft {path : List ι} {a : ι} (hmem : a ∈ path)
    (h : a ∉ (steps path).map Prod.fst) : ∃ init, path = init ++ [a] := by
  obtain ⟨init, rest, rfl⟩ := List.append_of_mem hmem
  cases rest with
  | nil => exact ⟨init, rfl⟩
  | cons b rest =>
    have hsteps := steps_append init rest a b
    rw [List.append_assoc] at hsteps
    refine absurd ?_ h
    rw [show init ++ a :: b :: rest = init ++ ([a] ++ b :: rest) from rfl, hsteps]
    simp

/-- A place that no step enters is the first of its path. -/
theorem first_of_unentered {path : List ι} {b : ι} (hmem : b ∈ path)
    (h : b ∉ (steps path).map Prod.snd) : ∃ rest, path = b :: rest := by
  obtain ⟨init, rest, rfl⟩ := List.append_of_mem hmem
  rcases List.eq_nil_or_concat' init with rfl | ⟨init, a, rfl⟩
  · exact ⟨rest, rfl⟩
  · refine absurd ?_ h
    rw [steps_append]
    simp

/-- Along a path one comes from its first place to its last. -/
theorem reach_of_path {arrows : List (ι × ι)} {path rest init : List ι} {a b : ι}
    (hfirst : path = b :: rest) (hlast : path = init ++ [a])
    (h : ∀ e ∈ steps path, e ∈ arrows) : ReflTransGen (Arrow arrows) b a := by
  induction rest generalizing path init b with
  | nil =>
    rw [hfirst] at hlast
    have hsame : [b] = [a] := by
      cases init with
      | nil => exact hlast
      | cons x init => simp at hlast
    cases hsame
    exact .refl
  | cons c rest ih =>
    subst hfirst
    cases init with
    | nil => simp at hlast
    | cons x init =>
      have htail : c :: rest = init ++ [a] := (List.cons.inj hlast).2
      have hstep : Arrow arrows b c := h (b, c) List.mem_cons_self
      exact .head hstep (ih rfl htail fun e he => h e (List.mem_cons_of_mem _ he))

/-! ## Paths make no competing arrows and no cycle -/

theorem fst_flatMap_sublist (paths : List (List ι)) :
    ((paths.flatMap steps).map Prod.fst).Sublist paths.flatten := by
  induction paths with
  | nil => exact .slnil
  | cons path paths ih =>
    rw [List.flatMap_cons, List.map_append, List.flatten_cons]
    exact (fst_steps_sublist path).append ih

theorem snd_flatMap_sublist (paths : List (List ι)) :
    ((paths.flatMap steps).map Prod.snd).Sublist paths.flatten := by
  induction paths with
  | nil => exact .slnil
  | cons path paths ih =>
    rw [List.flatMap_cons, List.map_append, List.flatten_cons]
    exact ((snd_steps_sublist path).trans (List.tail_sublist path)).append ih

variable {arrows : List (ι × ι)} {paths : List (List ι)}

theorem Covers.fst (h : Covers paths arrows) : (arrows.map Prod.fst).Nodup :=
  (h.arrows.map Prod.fst).nodup_iff.mpr ((fst_flatMap_sublist paths).nodup h.disjoint)

theorem Covers.snd (h : Covers paths arrows) : (arrows.map Prod.snd).Nodup :=
  (h.arrows.map Prod.snd).nodup_iff.mpr ((snd_flatMap_sublist paths).nodup h.disjoint)

/-- An arrow leads from a place to the next one of all the places in a row. -/
theorem Covers.neighbours (h : Covers paths arrows) {a b : ι} (hab : Arrow arrows a b) :
    ∃ before after, paths.flatten = before ++ a :: b :: after := by
  obtain ⟨path, hpath, hstep⟩ := List.mem_flatMap.mp (h.arrows.mem_iff.mp hab)
  obtain ⟨before, after, hsplit⟩ := steps_split hstep
  obtain ⟨front, back, rfl⟩ := List.append_of_mem hpath
  refine ⟨front.flatten ++ before, after ++ back.flatten, ?_⟩
  rw [List.flatten_append, List.flatten_cons, hsplit]
  simp

section Index

variable [DecidableEq ι]

theorem Covers.idxOf_lt (h : Covers paths arrows) {a b : ι} (hab : Arrow arrows a b) :
    paths.flatten.idxOf a < paths.flatten.idxOf b := by
  have hnodup := h.disjoint
  obtain ⟨before, after, hsplit⟩ := h.neighbours hab
  rw [hsplit] at hnodup ⊢
  obtain ⟨-, hrest, hapart⟩ := List.nodup_append.mp hnodup
  have ha : a ∉ before := fun hmem => hapart a hmem a List.mem_cons_self rfl
  have hb : b ∉ before := fun hmem =>
    hapart b hmem b (List.mem_cons_of_mem _ List.mem_cons_self) rfl
  have hne : a ≠ b := by
    rintro rfl
    exact (List.nodup_cons.mp hrest).1 List.mem_cons_self
  rw [List.idxOf_append_of_notMem ha, List.idxOf_append_of_notMem hb, List.idxOf_cons_self,
    List.idxOf_cons_ne _ hne]
  omega

theorem Covers.acyclic (h : Covers paths arrows) (a : ι) : ¬ TransGen (Arrow arrows) a a := by
  have hincreasing : ∀ {x y}, TransGen (Arrow arrows) x y →
      paths.flatten.idxOf x < paths.flatten.idxOf y := by
    intro x y hxy
    induction hxy with
    | single hstep => exact h.idxOf_lt hstep
    | tail _ hstep ih => exact Nat.lt_trans ih (h.idxOf_lt hstep)
  exact fun hcycle => Nat.lt_irrefl _ (hincreasing hcycle)

end Index

/-! ## Building the paths -/

/-- A place that is on no path is a path of its own. -/
theorem Covers.mention (h : Covers paths arrows) (a : ι) :
    ∃ paths, Covers paths arrows ∧ a ∈ paths.flatten := by
  by_cases hmem : a ∈ paths.flatten
  · exact ⟨paths, h, hmem⟩
  · refine ⟨[a] :: paths, ⟨?_, h.arrows⟩, List.mem_append_left _ List.mem_cons_self⟩
    exact List.nodup_cons.mpr ⟨hmem, h.disjoint⟩

/-- A place that is on a path stays on one when another is mentioned. -/
theorem Covers.mention_two (h : Covers paths arrows) (a b : ι) :
    ∃ paths, Covers paths arrows ∧ a ∈ paths.flatten ∧ b ∈ paths.flatten := by
  obtain ⟨paths, h, ha⟩ := h.mention a
  by_cases hmem : b ∈ paths.flatten
  · exact ⟨paths, h, ha, hmem⟩
  · refine ⟨[b] :: paths, ⟨?_, h.arrows⟩, List.mem_append_right _ ha,
      List.mem_append_left _ List.mem_cons_self⟩
    exact List.nodup_cons.mpr ⟨hmem, h.disjoint⟩

/-- Two paths are joined by an arrow from the end of one to the beginning of the other. -/
theorem Covers.join {init rest : List ι} {a b : ι} {others : List (List ι)}
    (h : Covers ((init ++ [a]) :: (b :: rest) :: others) arrows) :
    Covers ((init ++ [a] ++ b :: rest) :: others) ((a, b) :: arrows) := by
  refine ⟨by simpa using h.disjoint, ?_⟩
  have hsteps := h.arrows
  rw [List.flatMap_cons, List.flatMap_cons] at hsteps
  rw [List.flatMap_cons, steps_append]
  have hmoved := (hsteps.cons (a, b)).trans List.perm_middle.symm
  rwa [List.append_assoc]

theorem Covers.perm {paths' : List (List ι)} (h : Covers paths arrows) (hperm : paths.Perm paths') :
    Covers paths' arrows :=
  ⟨hperm.flatten.nodup_iff.mp h.disjoint, h.arrows.trans (hperm.flatMap_right Chains.steps)⟩

/-- One more arrow that competes with none and closes no cycle. -/
theorem Covers.cons (h : Covers paths arrows) {a b : ι} (ha : a ∉ arrows.map Prod.fst)
    (hb : b ∉ arrows.map Prod.snd) (hcycle : ¬ ReflTransGen (Arrow arrows) b a) :
    ∃ paths, Covers paths ((a, b) :: arrows) := by
  obtain ⟨paths, h, hamem, hbmem⟩ := h.mention_two a b
  have hsub : ∀ path ∈ paths, ∀ e ∈ steps path, e ∈ arrows := fun path hpath e he =>
    h.arrows.mem_iff.mpr (List.mem_flatMap.mpr ⟨path, hpath, he⟩)
  obtain ⟨first, hfirst, hafirst⟩ := List.mem_flatten.mp hamem
  obtain ⟨second, hsecond, hbsecond⟩ := List.mem_flatten.mp hbmem
  obtain ⟨init, hinit⟩ := last_of_unleft hafirst fun hmem => by
    obtain ⟨e, he, hea⟩ := List.mem_map.mp hmem
    exact ha (List.mem_map.mpr ⟨e, hsub first hfirst e he, hea⟩)
  obtain ⟨rest, hrest⟩ := first_of_unentered hbsecond fun hmem => by
    obtain ⟨e, he, heb⟩ := List.mem_map.mp hmem
    exact hb (List.mem_map.mpr ⟨e, hsub second hsecond e he, heb⟩)
  -- the two are not one path, which would lead back from the arrow's end to its beginning
  have hne : second ≠ first := by
    rintro rfl
    exact hcycle (reach_of_path hrest hinit (hsub second hsecond))
  obtain ⟨front, back, rfl⟩ := List.append_of_mem hfirst
  have hother : second ∈ front ++ back := by
    rcases List.mem_append.mp hsecond with hmem | hmem
    · exact List.mem_append_left _ hmem
    · rcases List.mem_cons.mp hmem with heq | hmem
      · exact absurd heq hne
      · exact List.mem_append_right _ hmem
  obtain ⟨left, right, hothers⟩ := List.append_of_mem hother
  have hperm : (front ++ first :: back).Perm (first :: second :: (left ++ right)) := by
    refine List.perm_middle.trans (.cons _ ?_)
    rw [hothers]
    exact List.perm_middle
  subst hinit hrest
  exact ⟨_, (h.perm hperm).join⟩

/-- Arrows are the steps of disjoint simple paths exactly where no place is left twice, none is
entered twice, and there is no cycle. -/
theorem covers_iff [DecidableEq ι] : (∃ paths, Covers paths arrows) ↔
    (arrows.map Prod.fst).Nodup ∧ (arrows.map Prod.snd).Nodup ∧
      ∀ a, ¬ TransGen (Arrow arrows) a a := by
  constructor
  · rintro ⟨paths, h⟩
    exact ⟨h.fst, h.snd, h.acyclic⟩
  · rintro ⟨hfst, hsnd, hacyclic⟩
    induction arrows with
    | nil => exact ⟨[], List.nodup_nil, .nil⟩
    | cons e arrows ih =>
      obtain ⟨ha, hfst⟩ := List.nodup_cons.mp hfst
      obtain ⟨hb, hsnd⟩ := List.nodup_cons.mp hsnd
      have hmono : ∀ x y, Arrow arrows x y → Arrow (e :: arrows) x y := fun _ _ h =>
        List.mem_cons_of_mem _ h
      have hstep : Arrow (e :: arrows) e.1 e.2 := List.mem_cons_self
      obtain ⟨paths, h⟩ := ih hfst hsnd fun a hcycle => hacyclic a (TransGen.mono hmono _ _ hcycle)
      refine h.cons ha hb fun hback => hacyclic e.1 ?_
      exact .head' hstep (ReflTransGen.mono hmono _ _ hback)

end Lib.Chains
