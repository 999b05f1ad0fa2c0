import Mathlib.Data.List.Nodup
import Mathlib.Data.List.Perm.Subperm
import Mathlib.Logic.Relation

/-!
# Walks along arrows

A list of arrows in which no two leave from one place. From any place there is one walk.
`acyclic` follows the walk from every arrow until it ends or comes back to a place; it holds
exactly when the arrows have no cycle.
-/

namespace Lib.Walk

open Relation

variable {ι : Type*} [DecidableEq ι]

/-- An arrow of the list. -/
def Arrow (arrows : List (ι × ι)) (a b : ι) : Prop := (a, b) ∈ arrows

/-- Where the arrow from a place leads. -/
def next (arrows : List (ι × ι)) (a : ι) : Option ι :=
  (arrows.find? fun e => e.1 = a).map Prod.snd

/-- Whether the walk from a place comes to none it has visited. The fuel counts the places
left to visit. -/
def open? (arrows : List (ι × ι)) : Nat → List ι → ι → Bool
  | 0, _, _ => true
  | fuel + 1, visited, a =>
    match next arrows a with
    | none => true
    | some b => a ∉ visited && open? arrows fuel (a :: visited) b

/-- Whether no walk comes back to where it was. -/
def acyclic (arrows : List (ι × ι)) : Bool :=
  arrows.all fun e => open? arrows (arrows.length + 1) [] e.1

variable {arrows : List (ι × ι)}

omit [DecidableEq ι] in
theorem Arrow.unique (h : (arrows.map Prod.fst).Nodup) {a b c : ι} (hb : Arrow arrows a b)
    (hc : Arrow arrows a c) : b = c :=
  congrArg Prod.snd (List.inj_on_of_nodup_map h hb hc rfl)

theorem arrow_of_next {a b : ι} (h : next arrows a = some b) : Arrow arrows a b := by
  obtain ⟨e, he, rfl⟩ := Option.map_eq_some_iff.mp h
  have hkey : e.1 = a := by simpa using List.find?_some he
  exact hkey ▸ List.mem_of_find?_eq_some he

theorem next_of_arrow {a b : ι} (h : Arrow arrows a b) : next arrows a ≠ none := by
  intro hnone
  have hfind : arrows.find? (fun e => e.1 = a) = none := Option.map_eq_none_iff.mp hnone
  simpa using List.find?_eq_none.mp hfind (a, b) h

omit [DecidableEq ι] in
/-- A place on a cycle leads to places on a cycle. -/
theorem cycle_of_reach (h : (arrows.map Prod.fst).Nodup) {a b : ι}
    (ha : TransGen (Arrow arrows) a a) (hb : ReflTransGen (Arrow arrows) a b) :
    TransGen (Arrow arrows) b b := by
  induction hb with
  | refl => exact ha
  | @tail b c _ hc ih =>
    obtain ⟨d, hd, hback⟩ := TransGen.head'_iff.mp ih
    obtain rfl := Arrow.unique h hd hc
    exact TransGen.tail' hback hd

omit [DecidableEq ι] in
/-- The visited places are places that arrows leave, so they are not more than the arrows. -/
theorem visited_le {visited : List ι} (hnodup : visited.Nodup)
    (hsub : visited ⊆ arrows.map Prod.fst) : visited.length ≤ arrows.length := by
  have hlength := (hnodup.subperm hsub).length_le
  rwa [List.length_map] at hlength

/-- A walk that is found open ends. -/
theorem ends_of_open {fuel : Nat} {visited : List ι} {a : ι}
    (hopen : open? arrows fuel visited a) (hnodup : visited.Nodup)
    (hsub : visited ⊆ arrows.map Prod.fst) (hfuel : arrows.length < fuel + visited.length) :
    ∃ b, ReflTransGen (Arrow arrows) a b ∧ next arrows b = none := by
  induction fuel generalizing visited a with
  | zero =>
    have hlength := visited_le hnodup hsub
    omega
  | succ fuel ih =>
    cases hnext : next arrows a with
    | none => exact ⟨a, .refl, hnext⟩
    | some b =>
      simp only [open?, hnext, Bool.and_eq_true, decide_eq_true_eq] at hopen
      have hmem : a ∈ arrows.map Prod.fst := List.mem_map_of_mem (arrow_of_next hnext)
      obtain ⟨c, hc, hend⟩ := ih hopen.2 (List.nodup_cons.mpr ⟨hopen.1, hnodup⟩)
        (List.cons_subset.mpr ⟨hmem, hsub⟩) (by simp; omega)
      exact ⟨c, .head (arrow_of_next hnext) hc, hend⟩

/-- Once it is enough, the fuel makes no difference. -/
theorem open_fuel {fuel fuel' : Nat} {visited : List ι} (a : ι) (hnodup : visited.Nodup)
    (hsub : visited ⊆ arrows.map Prod.fst) (hfuel : arrows.length < fuel + visited.length)
    (hfuel' : arrows.length < fuel' + visited.length) :
    open? arrows fuel visited a = open? arrows fuel' visited a := by
  have hlength := visited_le hnodup hsub
  induction fuel generalizing fuel' visited a with
  | zero => omega
  | succ fuel ih =>
    cases fuel' with
    | zero => omega
    | succ fuel' =>
      cases hnext : next arrows a with
      | none => simp only [open?, hnext]
      | some b =>
        simp only [open?, hnext]
        by_cases hmem : a ∈ visited
        · simp [hmem]
        · have hfresh := List.nodup_cons.mpr ⟨hmem, hnodup⟩
          have hleft : a :: visited ⊆ arrows.map Prod.fst :=
            List.cons_subset.mpr ⟨List.mem_map_of_mem (arrow_of_next hnext), hsub⟩
          have hsame : open? arrows fuel (a :: visited) b = open? arrows fuel' (a :: visited) b :=
            ih b hfresh hleft (by rw [List.length_cons]; omega)
              (by rw [List.length_cons]; omega) (visited_le hfresh hleft)
          rw [hsame]

/-- Without a cycle every walk is found open. -/
theorem open_of_acyclic (h : ∀ a, ¬ TransGen (Arrow arrows) a a) {visited : List ι} {a : ι}
    (hvisited : ∀ v ∈ visited, TransGen (Arrow arrows) v a) (fuel : Nat) :
    open? arrows fuel visited a := by
  induction fuel generalizing visited a with
  | zero => rfl
  | succ fuel ih =>
    cases hnext : next arrows a with
    | none => simp [open?, hnext]
    | some b =>
      have hstep := arrow_of_next hnext
      have hfresh : a ∉ visited := fun hmem => h a (hvisited a hmem)
      have hrest : open? arrows fuel (a :: visited) b := by
        refine ih fun v hv => ?_
        rcases List.mem_cons.mp hv with rfl | hv
        · exact .single hstep
        · exact (hvisited v hv).tail hstep
      simp [open?, hnext, hfresh, hrest]

theorem acyclic_iff (h : (arrows.map Prod.fst).Nodup) :
    acyclic arrows ↔ ∀ a, ¬ TransGen (Arrow arrows) a a := by
  constructor
  · intro hacyclic a ha
    obtain ⟨b, hb, -⟩ := TransGen.head'_iff.mp ha
    have hopen : open? arrows (arrows.length + 1) [] a :=
      List.all_eq_true.mp hacyclic (a, b) hb
    obtain ⟨c, hc, hend⟩ := ends_of_open hopen List.nodup_nil (List.nil_subset _) (by simp)
    obtain ⟨d, hd, -⟩ := TransGen.head'_iff.mp (cycle_of_reach h ha hc)
    exact next_of_arrow hd hend
  · intro hnone
    exact List.all_eq_true.mpr fun e _ => open_of_acyclic hnone (by simp) _

/-- An arrow to a place that no arrow leaves closes no cycle. -/
theorem acyclic_append {a b : ι} (h : acyclic arrows) (hab : a ≠ b)
    (hfirst : ∀ e ∈ arrows, e.1 ≠ a) (hlast : ∀ e ∈ arrows, e.1 ≠ b)
    (hnodup : (arrows.map Prod.fst).Nodup) : acyclic (arrows ++ [(a, b)]) := by
  have hsplit : ∀ {x y}, Arrow (arrows ++ [(a, b)]) x y → Arrow arrows x y ∨ x = a ∧ y = b := by
    intro x y hxy
    have hxy' : (x, y) ∈ arrows ++ [(a, b)] := hxy
    simpa [Arrow] using hxy'
  have hend : ∀ {y}, ¬ Arrow (arrows ++ [(a, b)]) b y := by
    intro y hy
    rcases hsplit hy with hy | ⟨hba, -⟩
    · exact hlast _ hy rfl
    · exact hab hba.symm
  -- A walk is one of the old arrows, or it has come to its end.
  have hwalk : ∀ {x y}, TransGen (Arrow (arrows ++ [(a, b)])) x y →
      TransGen (Arrow arrows) x y ∨ y = b := by
    intro x y hxy
    induction hxy with
    | single hstep => exact (hsplit hstep).imp .single And.right
    | tail _ hstep ih =>
      rcases ih with hold | rfl
      · exact (hsplit hstep).imp hold.tail And.right
      · exact absurd hstep hend
  have hkeys : ((arrows ++ [(a, b)]).map Prod.fst).Nodup := by
    rw [List.map_append, List.nodup_append]
    refine ⟨hnodup, by simp, fun x hx y hy => ?_⟩
    obtain ⟨e, he, rfl⟩ := List.mem_map.mp hx
    have hya : y = a := by simpa using hy
    exact hya ▸ hfirst e he
  refine (acyclic_iff hkeys).mpr fun c hc => ?_
  rcases hwalk hc with hold | rfl
  · exact (acyclic_iff hnodup).mp h c hold
  · obtain ⟨d, hd, -⟩ := TransGen.head'_iff.mp hc
    exact hend hd

end Lib.Walk
