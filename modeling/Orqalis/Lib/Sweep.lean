import Mathlib.Algebra.BigOperators.Group.List.Basic
import Mathlib.Algebra.Order.Ring.Int
import Mathlib.Data.List.Induction
import Mathlib.Data.List.Sort
import Mathlib.Order.Bounds.Basic
import Mathlib.Order.MinMax

/-!
# Sweeps over the ends of intervals

How many half-open intervals share an instant, at most. Each interval adds one where it begins
and takes one away where it ends; the sums along the ordered instants are the numbers of
intervals that hold them (`upTo_endpoints`), and the largest of them is the largest there is
(`isGreatest_peak`). Where one interval ends and another begins at an instant, the two changes
cancel before they are looked at.
-/

namespace Lib.Sweep

variable {α : Type*} [LinearOrder α]

/-- Change the count at an instant. -/
def bump (d : Int) (t : α) : List (α × Int) → List (α × Int)
  | [] => [(t, d)]
  | point :: rest => if point.1 = t then (t, point.2 + d) :: rest else point :: bump d t rest

/-- The changes at the ends of intervals. -/
def endpoints (intervals : List (α × α)) : List (α × Int) :=
  intervals.foldl (fun points i => bump (-1) i.2 (bump 1 i.1 points)) []

/-- The largest sum along changes, where `concurrent` are there already. -/
def sweep : List (α × Int) → Int → Int → Int
  | [], _, maximum => maximum
  | point :: rest, concurrent, maximum =>
    sweep rest (concurrent + point.2) (max maximum (concurrent + point.2))

/-- The largest number of intervals that share an instant. -/
def peak (intervals : List (α × α)) : Int :=
  sweep ((endpoints intervals).insertionSort fun x y => x.1 ≤ y.1) 0 0

/-- The sum of the changes up to an instant. -/
def upTo (points : List (α × Int)) (t : α) : Int :=
  ((points.filter fun p => p.1 ≤ t).map Prod.snd).sum

/-- How many intervals hold an instant. -/
def holding (intervals : List (α × α)) (t : α) : Nat :=
  intervals.countP fun i => i.1 ≤ t ∧ t < i.2

variable {points rest : List (α × Int)} {t u : α} {d concurrent maximum : Int}

theorem upTo_cons (point : α × Int) (rest : List (α × Int)) (t : α) :
    upTo (point :: rest) t = (if point.1 ≤ t then point.2 else 0) + upTo rest t := by
  unfold upTo
  by_cases h : point.1 ≤ t <;> simp [h]

theorem upTo_perm {points points' : List (α × Int)} (h : points.Perm points') (t : α) :
    upTo points t = upTo points' t :=
  ((h.filter _).map _).sum_eq

theorem upTo_eq_zero (h : ∀ p ∈ points, t < p.1) : upTo points t = 0 := by
  have hnone : (points.filter fun p => p.1 ≤ t) = [] :=
    List.filter_eq_nil_iff.mpr fun p hp => by simpa using h p hp
  unfold upTo
  rw [hnone]
  rfl

/-! ## The changes -/

theorem upTo_bump : upTo (bump d u points) t = upTo points t + if u ≤ t then d else 0 := by
  induction points with
  | nil => rw [bump, upTo_cons, add_comm]
  | cons point rest ih =>
    unfold bump
    by_cases heq : point.1 = u
    · rw [if_pos heq, upTo_cons, upTo_cons, heq]
      by_cases hle : u ≤ t
      · simp only [if_pos hle]
        omega
      · simp only [if_neg hle]
        omega
    · rw [if_neg heq, upTo_cons, upTo_cons, ih]
      omega

theorem mem_bump {p : α × Int} (h : p ∈ bump d u points) : p.1 = u ∨ p ∈ points := by
  induction points with
  | nil =>
    obtain rfl := List.mem_singleton.mp h
    exact .inl rfl
  | cons point rest ih =>
    unfold bump at h
    split_ifs at h
    · rcases List.mem_cons.mp h with rfl | h
      · exact .inl rfl
      · exact .inr (List.mem_cons_of_mem _ h)
    · rcases List.mem_cons.mp h with rfl | h
      · exact .inr List.mem_cons_self
      · exact (ih h).imp_right (List.mem_cons_of_mem _)

/-- No instant is listed twice. -/
theorem bump_nodup (h : (points.map Prod.fst).Nodup) :
    ((bump d u points).map Prod.fst).Nodup := by
  induction points with
  | nil => simp [bump]
  | cons point rest ih =>
    rw [List.map_cons, List.nodup_cons] at h
    unfold bump
    split_ifs with heq
    · rw [List.map_cons, List.nodup_cons]
      exact heq ▸ h
    · rw [List.map_cons, List.nodup_cons]
      refine ⟨fun hmem => ?_, ih h.2⟩
      obtain ⟨p, hp, hfst⟩ := List.mem_map.mp hmem
      rcases mem_bump hp with hu | hp
      · exact heq (hfst.symm.trans hu)
      · exact h.1 (List.mem_map.mpr ⟨p, hp, hfst⟩)

theorem endpoints_append (intervals : List (α × α)) (i : α × α) :
    endpoints (intervals ++ [i]) = bump (-1) i.2 (bump 1 i.1 (endpoints intervals)) := by
  simp [endpoints]

theorem endpoints_nodup (intervals : List (α × α)) :
    ((endpoints intervals).map Prod.fst).Nodup := by
  induction intervals using List.reverseRecOn with
  | nil => exact List.nodup_nil
  | append_singleton intervals i ih =>
    rw [endpoints_append]
    exact bump_nodup (bump_nodup ih)

/-- The changes up to an instant leave the intervals that hold it. -/
theorem upTo_endpoints {intervals : List (α × α)} (h : ∀ i ∈ intervals, i.1 ≤ i.2) (t : α) :
    upTo (endpoints intervals) t = holding intervals t := by
  induction intervals using List.reverseRecOn with
  | nil => rfl
  | append_singleton intervals i ih =>
    have hi : i.1 ≤ i.2 := h i (by simp)
    have hothers := ih fun j hj => h j (List.mem_append_left _ hj)
    rw [endpoints_append, upTo_bump, upTo_bump, hothers]
    unfold holding
    rw [List.countP_append, List.countP_singleton]
    -- an instant after the end is after the beginning
    by_cases hend : i.2 ≤ t
    · simp [hend, hi.trans hend]
    · by_cases hbegin : i.1 ≤ t <;> simp [hend, hbegin, not_le.mp hend]

/-! ## The sums along them -/

omit [LinearOrder α] in
theorem le_sweep : maximum ≤ sweep points concurrent maximum := by
  induction points generalizing concurrent maximum with
  | nil => exact le_rfl
  | cons point rest ih => exact (le_max_left _ _).trans ih

/-- No sum is larger than what the sweep finds. -/
theorem upTo_le_sweep (hsorted : (points.map Prod.fst).Pairwise (· < ·))
    (hlisted : ∃ p ∈ points, p.1 ≤ t) :
    concurrent + upTo points t ≤ sweep points concurrent maximum := by
  induction points generalizing concurrent maximum with
  | nil => simp at hlisted
  | cons point rest ih =>
    rw [List.map_cons, List.pairwise_cons] at hsorted
    have hfirst : point.1 ≤ t := by
      obtain ⟨p, hp, hpt⟩ := hlisted
      rcases List.mem_cons.mp hp with rfl | hp
      · exact hpt
      · exact (hsorted.1 p.1 (List.mem_map_of_mem hp)).le.trans hpt
    rw [upTo_cons, if_pos hfirst, ← add_assoc]
    unfold sweep
    by_cases hrest : ∃ p ∈ rest, p.1 ≤ t
    · exact ih hsorted.2 hrest
    · rw [upTo_eq_zero (by simpa using hrest), add_zero]
      exact (le_max_right _ _).trans le_sweep

/-- What the sweep finds is a sum, or what it began with. -/
theorem sweep_attained (hsorted : (points.map Prod.fst).Pairwise (· < ·)) :
    sweep points concurrent maximum = maximum ∨
      ∃ t, sweep points concurrent maximum = concurrent + upTo points t := by
  induction points generalizing concurrent maximum with
  | nil => exact .inl rfl
  | cons point rest ih =>
    rw [List.map_cons, List.pairwise_cons] at hsorted
    have hnone : upTo rest point.1 = 0 :=
      upTo_eq_zero fun p hp => hsorted.1 p.1 (List.mem_map_of_mem hp)
    unfold sweep
    rcases @ih (concurrent + point.2) (max maximum (concurrent + point.2)) hsorted.2 with h | ⟨t, h⟩
    · rcases max_choice maximum (concurrent + point.2) with hmax | hmax
      · exact .inl (h.trans hmax)
      · refine .inr ⟨point.1, ?_⟩
        rw [h, hmax, upTo_cons, if_pos le_rfl, hnone, add_zero]
    · by_cases hrest : ∃ p ∈ rest, p.1 ≤ t
      · obtain ⟨p, hp, hpt⟩ := hrest
        have hfirst : point.1 ≤ t := (hsorted.1 p.1 (List.mem_map_of_mem hp)).le.trans hpt
        refine .inr ⟨t, ?_⟩
        rw [h, upTo_cons, if_pos hfirst, add_assoc]
      · -- before every other change only the first one counts
        refine .inr ⟨point.1, ?_⟩
        rw [h, upTo_eq_zero (by simpa using hrest), upTo_cons, if_pos le_rfl, hnone, add_zero,
          add_zero]

/-- The sweep finds the largest number of intervals that hold one instant. -/
theorem isGreatest_peak [Nonempty α] {intervals : List (α × α)}
    (h : ∀ i ∈ intervals, i.1 < i.2) :
    IsGreatest (Set.range fun t => (holding intervals t : Int)) (peak intervals) := by
  have hle : ∀ i ∈ intervals, i.1 ≤ i.2 := fun i hi => (h i hi).le
  have hperm := List.perm_insertionSort (fun x y : α × Int => x.1 ≤ y.1) (endpoints intervals)
  have hsorted : (((endpoints intervals).insertionSort fun x y => x.1 ≤ y.1).map
      Prod.fst).Pairwise (· < ·) := by
    have hnodup := (hperm.map Prod.fst).nodup_iff.mpr (endpoints_nodup intervals)
    have hordered := List.pairwise_insertionSort (fun x y : α × Int => x.1 ≤ y.1)
      (endpoints intervals)
    rw [← List.pairwise_map (R := (· ≤ ·))] at hordered
    exact (hordered.and hnodup).imp fun hxy => lt_of_le_of_ne hxy.1 hxy.2
  have hsum (t : α) : upTo ((endpoints intervals).insertionSort fun x y => x.1 ≤ y.1) t =
      holding intervals t := by
    rw [upTo_perm hperm, upTo_endpoints hle]
  have hbound (t : α) : (holding intervals t : Int) ≤ peak intervals := by
    by_cases hlisted : ∃ p ∈ (endpoints intervals).insertionSort fun x y => x.1 ≤ y.1, p.1 ≤ t
    · have hupTo : (0 : Int) + upTo _ t ≤ peak intervals := upTo_le_sweep hsorted hlisted
      rwa [hsum, zero_add] at hupTo
    · have hnone : upTo _ t = 0 := upTo_eq_zero (by simpa using hlisted)
      rw [upTo_endpoints hle] at hnone
      rw [hnone]
      exact le_sweep
  refine ⟨?_, by rintro _ ⟨t, rfl⟩; exact hbound t⟩
  have hfound : peak intervals = 0 ∨ ∃ t, peak intervals = 0 + upTo _ t := sweep_attained hsorted
  rcases hfound with hzero | ⟨t, ht⟩
  · -- any interval would be counted where it begins
    cases intervals with
    | nil => exact ⟨Classical.arbitrary α, hzero.symm⟩
    | cons i others =>
      have hone : 0 < holding (i :: others) i.1 :=
        List.countP_pos_iff.mpr ⟨i, List.mem_cons_self, by simpa using h i List.mem_cons_self⟩
      have := hbound i.1
      omega
  · refine ⟨t, ?_⟩
    rw [ht, hsum, zero_add]

end Lib.Sweep
