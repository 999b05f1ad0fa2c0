import Mathlib.Algebra.BigOperators.Group.List.Basic
import Mathlib.Algebra.GroupWithZero.Nat
import Mathlib.Data.List.Chain
import Mathlib.Data.List.Induction
import Mathlib.Data.List.MinMax
import Mathlib.Data.Prod.Lex
import Mathlib.Order.Bounds.Basic

/-!
# The heaviest chain of an acyclic relation

Each place has parents and a weight. Along an order in which parents come first, the heaviest
chain that ends in a place continues the heaviest one that ends in a parent. `Best` is what the
table built so far says of the places seen, `extend_best` the step, and `isGreatest_heaviest`
that the heaviest entry of the whole table is the heaviest of all chains.
-/

namespace Lib.LongestChain

variable {ι : Type*} [DecidableEq ι] (parents : ι → List ι) (weight : ι → Nat)

/-- A chain that ends in a place, and what it weighs. -/
structure Entry (ι : Type*) where
  last : ι
  total : Nat
  items : List ι

/-- Places each of which is a parent of the next. -/
def Chained (items : List ι) : Prop := items.IsChain fun a b => a ∈ parents b

/-- What places weigh together. -/
def weigh (items : List ι) : Nat := (items.map weight).sum

/-- The heaviest chain to one of some places, the first of those there are, or the empty one. -/
def best (table : List (Entry ι)) (places : List ι) : Nat × List ι :=
  (((places.filterMap fun p => table.find? fun e => e.last = p).argmax Entry.total).map
    fun e => (e.total, e.items)).getD (0, [])

/-- The table with a place added. -/
def extend (table : List (Entry ι)) (a : ι) : List (Entry ι) :=
  table ++ [⟨a, (best table (parents a)).1 + weight a, (best table (parents a)).2 ++ [a]⟩]

/-- The table for places in order. -/
def chains (order : List ι) : List (Entry ι) := order.foldl (extend parents weight) []

/-- The heaviest chain of a table, of those the longest, of those the first. -/
def heaviest (table : List (Entry ι)) : Nat × List ι :=
  ((table.argmax fun e => toLex (e.total, e.items.length)).map fun e => (e.total, e.items)).getD
    (0, [])

variable {parents weight} {table : List (Entry ι)} {seen items : List ι} {a : ι}

/-- What a table says of the places seen. -/
structure Best (parents : ι → List ι) (weight : ι → Nat) (seen : List ι)
    (table : List (Entry ι)) : Prop where
  listed : table.map Entry.last = seen
  chained : ∀ e ∈ table, Chained parents e.items
  last : ∀ e ∈ table, e.items.getLast? = some e.last
  within : ∀ e ∈ table, e.items ⊆ seen
  total : ∀ e ∈ table, weigh weight e.items = e.total
  longest : ∀ e ∈ table, ∀ items, Chained parents items → items.getLast? = some e.last →
    weigh weight items ≤ e.total

omit [DecidableEq ι] in
theorem weigh_concat : weigh weight (items ++ [a]) = weigh weight items + weight a := by
  simp [weigh]

omit [DecidableEq ι] in
/-- A chain to a place is the place alone or continues a chain to a parent. -/
theorem chained_concat : Chained parents (items ++ [a]) ↔
    Chained parents items ∧ ∀ b ∈ items.getLast?, b ∈ parents a := by
  unfold Chained
  rw [List.isChain_append]
  simp

omit [DecidableEq ι] in
theorem Best.nil : Best parents weight [] [] where
  listed := rfl
  chained := by simp
  last := by simp
  within := by simp
  total := by simp
  longest := by simp

/-- Every place seen has its entry. -/
theorem Best.find (h : Best parents weight seen table) (ha : a ∈ seen) :
    ∃ e ∈ table, e.last = a ∧ (table.find? fun e => e.last = a) = some e := by
  have hmem : a ∈ table.map Entry.last := h.listed ▸ ha
  obtain ⟨e, he, rfl⟩ := List.mem_map.mp hmem
  have hsome : (table.find? fun f => f.last = e.last).isSome := by
    rw [List.find?_isSome]
    exact ⟨e, he, by simp⟩
  obtain ⟨f, hf⟩ := Option.isSome_iff_exists.mp hsome
  exact ⟨f, List.mem_of_find?_eq_some hf, by simpa using List.find?_some hf, hf⟩

/-- A chain that ends in one of some places, no lighter than any other, or empty. -/
structure Heaviest (parents : ι → List ι) (weight : ι → Nat) (seen places : List ι)
    (found : Nat × List ι) : Prop where
  chained : Chained parents found.2
  within : found.2 ⊆ seen
  last : ∀ p ∈ found.2.getLast?, p ∈ places
  total : weigh weight found.2 = found.1
  longest : ∀ items, Chained parents items → (∀ p ∈ items.getLast?, p ∈ places) →
    weigh weight items ≤ found.1

/-- The chain to some places seen is the heaviest. -/
theorem Best.best (h : Best parents weight seen table) {places : List ι}
    (hseen : ∀ p ∈ places, p ∈ seen) : Heaviest parents weight seen places (best table places) := by
  unfold LongestChain.best
  cases hmax : (places.filterMap fun p => table.find? fun e => e.last = p).argmax Entry.total with
  | none =>
    -- every place has an entry, so there is none
    have hnone : ∀ p, p ∉ places := by
      intro p hp
      obtain ⟨e, -, -, hfind⟩ := h.find (hseen p hp)
      have hmem : e ∈ places.filterMap fun p => table.find? fun e => e.last = p :=
        List.mem_filterMap.mpr ⟨p, hp, hfind⟩
      rw [List.argmax_eq_none.mp hmax] at hmem
      cases hmem
    refine ⟨List.isChain_nil, List.nil_subset _, by simp, rfl, fun items _ hlast => ?_⟩
    cases hitems : items.getLast? with
    | none =>
      rw [List.getLast?_eq_none_iff.mp hitems]
      exact le_rfl
    | some p => exact absurd (hlast p hitems) (hnone p)
  | some e =>
    obtain ⟨p, hp, hfind⟩ := List.mem_filterMap.mp (List.argmax_mem hmax)
    have he : e ∈ table := List.mem_of_find?_eq_some hfind
    have hep : e.last = p := by simpa using List.find?_some hfind
    refine ⟨h.chained e he, h.within e he, fun q hq => ?_, h.total e he,
      fun items hitems hlast => ?_⟩
    · have hq : e.items.getLast? = some q := hq
      rw [h.last e he] at hq
      rw [← Option.some.inj hq, hep]
      exact hp
    · cases hend : items.getLast? with
      | none =>
        rw [List.getLast?_eq_none_iff.mp hend]
        exact Nat.zero_le _
      | some q =>
        obtain ⟨f, hf, hfq, hfound⟩ := h.find (hseen q (hlast q hend))
        have hmem : f ∈ places.filterMap fun p => table.find? fun e => e.last = p :=
          List.mem_filterMap.mpr ⟨q, hlast q hend, hfound⟩
        exact (h.longest f hf items hitems (hfq ▸ hend)).trans (List.le_of_mem_argmax hmem hmax)

/-- A place after all of its parents keeps what the table says. -/
theorem Best.extend (h : Best parents weight seen table) (hparents : ∀ p ∈ parents a, p ∈ seen) :
    Best parents weight (seen ++ [a]) (extend parents weight table a) := by
  have hbest := h.best hparents
  have hnew {e : Entry ι} (he : e ∈ LongestChain.extend parents weight table a) :
      e ∈ table ∨ e = ⟨a, (LongestChain.best table (parents a)).1 + weight a,
        (LongestChain.best table (parents a)).2 ++ [a]⟩ := by
    simpa [LongestChain.extend] using he
  refine ⟨?_, ?_, ?_, ?_, ?_, ?_⟩
  · simp [LongestChain.extend, h.listed]
  · intro e he
    rcases hnew he with he | rfl
    · exact h.chained e he
    · exact chained_concat.mpr ⟨hbest.chained, hbest.last⟩
  · intro e he
    rcases hnew he with he | rfl
    · exact h.last e he
    · simp
  · intro e he
    rcases hnew he with he | rfl
    · exact List.Subset.trans (h.within e he) (List.subset_append_left _ _)
    · exact List.append_subset.mpr ⟨List.Subset.trans hbest.within (List.subset_append_left _ _),
        List.subset_append_right _ _⟩
  · intro e he
    rcases hnew he with he | rfl
    · exact h.total e he
    · simp only
      rw [weigh_concat, hbest.total]
  · intro e he items hitems hlast
    rcases hnew he with he | rfl
    · exact h.longest e he items hitems hlast
    · obtain ⟨items, rfl⟩ := List.getLast?_eq_some_iff.mp hlast
      obtain ⟨hchained, hparent⟩ := chained_concat.mp hitems
      rw [weigh_concat]
      exact Nat.add_le_add_right (hbest.longest items hchained hparent) _

/-- Along an order in which parents come first the table says it of every place. -/
theorem chains_best (order : List ι)
    (hsorted : ∀ pre a post, order = pre ++ a :: post → ∀ p ∈ parents a, p ∈ pre) :
    Best parents weight order (chains parents weight order) := by
  induction order using List.reverseRecOn with
  | nil => exact .nil
  | append_singleton order a ih =>
    have hbest := ih fun pre b post heq => hsorted pre b (post ++ [a]) (by simp [heq])
    have heq : chains parents weight (order ++ [a]) =
        extend parents weight (chains parents weight order) a := by
      simp [chains]
    rw [heq]
    exact hbest.extend (hsorted order a [] rfl)

/-- The heaviest entry is the heaviest chain of all that stay in the order. -/
theorem Best.heaviest (h : Best parents weight seen table) :
    Heaviest parents weight seen seen (heaviest table) := by
  unfold LongestChain.heaviest
  cases hmax : table.argmax fun e => toLex (e.total, e.items.length) with
  | none =>
    have hnone : seen = [] := by
      rw [← h.listed, List.argmax_eq_none.mp hmax]
      rfl
    refine ⟨List.isChain_nil, List.nil_subset _, by simp, rfl, fun items _ hlast => ?_⟩
    cases hitems : items.getLast? with
    | none =>
      rw [List.getLast?_eq_none_iff.mp hitems]
      exact le_rfl
    | some p =>
      have hp := hlast p hitems
      rw [hnone] at hp
      cases hp
  | some e =>
    have he : e ∈ table := List.argmax_mem hmax
    refine ⟨h.chained e he, h.within e he, fun q hq => ?_, h.total e he,
      fun items hitems hlast => ?_⟩
    · exact h.within e he (List.mem_of_getLast? hq)
    · cases hend : items.getLast? with
      | none =>
        rw [List.getLast?_eq_none_iff.mp hend]
        exact Nat.zero_le _
      | some q =>
        obtain ⟨f, hf, hfq, -⟩ := h.find (hlast q hend)
        have hle := List.le_of_mem_argmax hf hmax
        have htotal : f.total ≤ e.total := by
          rcases Prod.Lex.le_iff.mp hle with hlt | ⟨heq, -⟩
          · exact hlt.le
          · exact heq.le
        exact (h.longest f hf items hitems (hfq ▸ hend)).trans htotal

omit [DecidableEq ι] in
/-- There is a heaviest chain if a place was seen. -/
theorem Best.heaviest_ne_nil (h : Best parents weight seen table) (hseen : seen ≠ []) :
    (LongestChain.heaviest table).2 ≠ [] := by
  unfold LongestChain.heaviest
  cases hmax : table.argmax fun e => toLex (e.total, e.items.length) with
  | none =>
    rw [← h.listed, List.argmax_eq_none.mp hmax] at hseen
    exact absurd rfl hseen
  | some e =>
    have hlast := h.last e (List.argmax_mem hmax)
    intro hnil
    have hitems : e.items = [] := hnil
    rw [hitems] at hlast
    cases hlast

end Lib.LongestChain
