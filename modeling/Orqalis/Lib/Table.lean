import Mathlib.Data.List.Nodup
import Mathlib.Data.List.Perm.Basic
import Mathlib.Data.List.Sort

/-!
# Keyed tables

A mapping whose key is a function of the stored value, in insertion order: storing a
value under a key the table already holds replaces it in place, any other value goes to
the end. No two entries share a key, and the table carries that fact as a field, so a
lookup never has to choose.

Two tables are the `Same` when they hold the same entries, whatever the order. That is
the equality of a mapping; the order is only what an iteration sees.
-/

namespace Lib

/-- A mapping from `key x` to `x`, in insertion order, with one entry for each key. -/
structure Table {α : Type*} {κ : Type*} (key : α → κ) where
  entries : List α
  nodup : (entries.map key).Nodup

namespace Table

variable {α κ : Type*} {key : α → κ}

instance [DecidableEq α] : DecidableEq (Table key) := fun t u =>
  decidable_of_iff (t.entries = u.entries) ⟨fun h => by cases t; cases u; cases h; rfl,
    fun h => h ▸ rfl⟩

/-- The table with no entry. -/
def empty : Table key := ⟨[], List.nodup_nil⟩

instance : Inhabited (Table key) := ⟨empty⟩

@[simp] theorem entries_empty : (empty : Table key).entries = [] := rfl

theorem eq_of_entries {t u : Table key} (h : t.entries = u.entries) : t = u := by
  cases t
  cases u
  cases h
  rfl

instance : Membership α (Table key) := ⟨fun t x => x ∈ t.entries⟩

theorem mem_def {t : Table key} {x : α} : x ∈ t ↔ x ∈ t.entries := Iff.rfl

/-- Two entries of a table with one key are one entry. -/
theorem eq_of_mem_key {t : Table key} {x y : α} (hx : x ∈ t) (hy : y ∈ t)
    (h : key x = key y) : x = y :=
  List.inj_on_of_nodup_map t.nodup hx hy h

/-- The entries that satisfy a condition. -/
def filter (t : Table key) (p : α → Bool) : Table key :=
  ⟨t.entries.filter p, (t.nodup.sublist (List.filter_sublist.map key))⟩

theorem mem_filter {t : Table key} {p : α → Bool} {x : α} : x ∈ t.filter p ↔ x ∈ t ∧ p x :=
  List.mem_filter

section Lookup

variable [DecidableEq κ]

/-- The entry stored under a key. -/
def get? (t : Table key) (k : κ) : Option α := t.entries.find? (fun x => key x = k)

/-- Whether the table holds a key. -/
def has (t : Table key) (k : κ) : Bool := (t.get? k).isSome

@[simp] theorem get?_empty (k : κ) : (empty : Table key).get? k = none := rfl

/-- A lookup finds exactly the entry with the key. -/
theorem get?_eq_some {t : Table key} {k : κ} {x : α} :
    t.get? k = some x ↔ x ∈ t ∧ key x = k := by
  constructor
  · intro h
    have hkey := List.find?_some h
    exact ⟨List.mem_of_find?_eq_some h, by simpa using hkey⟩
  · rintro ⟨hx, hk⟩
    cases hf : t.get? k with
    | none =>
      have hnone := List.find?_eq_none.mp hf x hx
      simp [hk] at hnone
    | some y =>
      have hy : y ∈ t := List.mem_of_find?_eq_some hf
      have hyk : key y = k := by simpa using List.find?_some hf
      rw [eq_of_mem_key hx hy (hk.trans hyk.symm)]

theorem get?_eq_none {t : Table key} {k : κ} :
    t.get? k = none ↔ ∀ x ∈ t, key x ≠ k := by
  simp [get?, mem_def]

theorem mem_of_get? {t : Table key} {k : κ} {x : α} (h : t.get? k = some x) : x ∈ t :=
  (get?_eq_some.mp h).1

theorem key_of_get? {t : Table key} {k : κ} {x : α} (h : t.get? k = some x) : key x = k :=
  (get?_eq_some.mp h).2

theorem get?_of_mem {t : Table key} {x : α} (h : x ∈ t) : t.get? (key x) = some x :=
  get?_eq_some.mpr ⟨h, rfl⟩

/-! ## Storing -/

private theorem replace_keys (x : α) (l : List α) :
    (l.map fun y => if key y = key x then x else y).map key = l.map key := by
  rw [List.map_map]
  apply List.map_congr_left
  intro y _
  by_cases h : key y = key x
  · simp [h]
  · simp [h]

/-- Store a value under its key: in place when the key is held, else at the end. -/
def put (t : Table key) (x : α) : Table key :=
  if h : key x ∈ t.entries.map key then
    ⟨t.entries.map fun y => if key y = key x then x else y, by
      rw [replace_keys]
      exact t.nodup⟩
  else
    ⟨t.entries ++ [x], by
      rw [List.map_append, List.map_singleton]
      simpa using List.Nodup.concat h t.nodup⟩

/-- After a store, the entries are the new value and the old ones of other keys. -/
theorem mem_put {t : Table key} {x y : α} :
    y ∈ t.put x ↔ y = x ∨ (y ∈ t ∧ key y ≠ key x) := by
  unfold put
  split
  · next h =>
    obtain ⟨z, hz, hzk⟩ := List.mem_map.mp h
    simp only [mem_def, List.mem_map]
    constructor
    · rintro ⟨w, hw, rfl⟩
      by_cases hwk : key w = key x
      · simp [hwk]
      · simp [hwk, hw]
    · rintro (rfl | ⟨hy, hyk⟩)
      · exact ⟨z, hz, by simp [hzk]⟩
      · exact ⟨y, hy, by simp [hyk]⟩
  · next h =>
    simp only [mem_def, List.mem_append, List.mem_singleton]
    constructor
    · rintro (hy | rfl)
      · exact .inr ⟨hy, fun hk => h (hk ▸ List.mem_map_of_mem hy)⟩
      · exact .inl rfl
    · rintro (rfl | ⟨hy, -⟩)
      · exact .inr rfl
      · exact .inl hy

@[simp] theorem mem_put_self (t : Table key) (x : α) : x ∈ t.put x := mem_put.mpr (.inl rfl)

theorem get?_put (t : Table key) (x : α) (k : κ) :
    (t.put x).get? k = if key x = k then some x else t.get? k := by
  by_cases hk : key x = k
  · rw [if_pos hk]
    exact get?_eq_some.mpr ⟨mem_put_self t x, hk⟩
  · rw [if_neg hk]
    cases hf : t.get? k with
    | none =>
      rw [get?_eq_none] at hf ⊢
      intro y hy
      rcases mem_put.mp hy with rfl | ⟨hy', -⟩
      · exact hk
      · exact hf y hy'
    | some y =>
      obtain ⟨hy, hyk⟩ := get?_eq_some.mp hf
      exact get?_eq_some.mpr ⟨mem_put.mpr (.inr ⟨hy, fun h => hk (h ▸ hyk)⟩), hyk⟩

@[simp] theorem get?_put_self (t : Table key) (x : α) : (t.put x).get? (key x) = some x := by
  simp [get?_put]

/-- A stored entry takes no other away. -/
theorem has_put {t : Table key} {x : α} {k : κ} (h : t.has k = true) : (t.put x).has k = true := by
  unfold has at h ⊢
  rw [get?_put]
  split_ifs
  · rfl
  · exact h

theorem get?_put_ne (t : Table key) {x : α} {k : κ} (h : key x ≠ k) :
    (t.put x).get? k = t.get? k := by
  simp [get?_put, h]

/-- Storing a value of a key the table does not hold appends it. -/
theorem entries_put_new {t : Table key} {x : α} (h : ∀ y ∈ t, key y ≠ key x) :
    (t.put x).entries = t.entries ++ [x] := by
  unfold put
  rw [dif_neg]
  intro hx
  obtain ⟨y, hy, hyk⟩ := List.mem_map.mp hx
  exact h y hy hyk

/-- Storing a value of a key the table holds replaces the value there. -/
theorem entries_put_held {t : Table key} {x : α} (h : key x ∈ t.entries.map key) :
    (t.put x).entries = t.entries.map fun y => if key y = key x then x else y := by
  unfold put
  rw [dif_pos h]

/-- Of two stores under one key the later counts. -/
theorem put_put {t : Table key} {x y : α} (h : key x = key y) : (t.put x).put y = t.put y := by
  apply eq_of_entries
  have hheld : key y ∈ (t.put x).entries.map key :=
    List.mem_map.mpr ⟨x, mem_put_self t x, h⟩
  rw [entries_put_held hheld]
  by_cases hx : key x ∈ t.entries.map key
  · rw [entries_put_held hx, entries_put_held (h ▸ hx), List.map_map]
    apply List.map_congr_left
    intro z _
    by_cases hz : key z = key y <;> simp [hz, h]
  · have hnew : ∀ z ∈ t, key z ≠ key x := fun z hz hk => hx (hk ▸ List.mem_map_of_mem hz)
    rw [entries_put_new hnew, entries_put_new (x := y) (h ▸ hnew), List.map_append]
    congr 1
    · conv_rhs => rw [← List.map_id t.entries]
      apply List.map_congr_left
      intro z hz
      have hz := hnew z hz
      rw [h] at hz
      simp [hz]
    · simp [h]

/-- A property of every entry survives a store of a value that has it. -/
theorem forall_put {t : Table key} {x : α} {P : α → Prop} (ht : ∀ y ∈ t, P y) (hx : P x) :
    ∀ y ∈ t.put x, P y := by
  intro y hy
  rcases mem_put.mp hy with rfl | ⟨hy, -⟩
  · exact hx
  · exact ht y hy

/-! ## Tables of lists -/

/-- The table a sequence of stores builds; of two values with one key the later wins. -/
def ofList (l : List α) : Table key := l.foldl put empty

private theorem foldl_put_new (l : List α) (t : Table key)
    (h : ((t.entries ++ l).map key).Nodup) :
    (l.foldl put t).entries = t.entries ++ l := by
  induction l generalizing t with
  | nil => simp
  | cons x l ih =>
    have hnew : ∀ y ∈ t, key y ≠ key x := by
      intro y hy hk
      rw [List.map_append, List.nodup_append] at h
      exact h.2.2 (key y) (List.mem_map_of_mem hy) (key x) (by simp) hk
    have hput := entries_put_new hnew
    rw [List.foldl_cons, ih (t.put x) (by rw [hput]; simpa using h), hput]
    simp

/-- A list with distinct keys is the table it builds. -/
theorem entries_ofList {l : List α} (h : (l.map key).Nodup) :
    (ofList l : Table key).entries = l := by
  have hput := foldl_put_new l (empty : Table key) (by simpa using h)
  rwa [entries_empty, List.nil_append] at hput

/-- Stores of other keys leave a lookup alone. -/
theorem get?_foldl_put {l : List α} {k : κ} (h : ∀ x ∈ l, key x ≠ k) (t : Table key) :
    (l.foldl put t).get? k = t.get? k := by
  induction l generalizing t with
  | nil => rfl
  | cons x l ih =>
    rw [List.foldl_cons, ih (fun y hy => h y (List.mem_cons_of_mem _ hy)),
      get?_put_ne t (h x List.mem_cons_self)]

/-- A lookup in the table of a list finds the last value of its key. -/
theorem get?_ofList_of_last {l m : List α} {x : α} (h : ∀ y ∈ m, key y ≠ key x) :
    (ofList (l ++ x :: m) : Table key).get? (key x) = some x := by
  unfold ofList
  rw [List.foldl_append, List.foldl_cons, get?_foldl_put h, get?_put_self]

/-- What a lookup finds after a list of stores is of the list or was there. -/
theorem mem_of_get?_foldl_put {l : List α} {t : Table key} {k : κ} {x : α}
    (h : (l.foldl put t).get? k = some x) : x ∈ l ∨ t.get? k = some x := by
  induction l generalizing t with
  | nil => exact .inr h
  | cons y l ih =>
    rw [List.foldl_cons] at h
    rcases ih h with hmem | hget
    · exact .inl (List.mem_cons_of_mem y hmem)
    · rw [get?_put] at hget
      split_ifs at hget with hk
      · exact .inl (Option.some.inj hget ▸ List.mem_cons_self)
      · exact .inr hget

/-- What a lookup finds in the table of a list is in the list. -/
theorem mem_of_get?_ofList {l : List α} {k : κ} {x : α}
    (h : (ofList l : Table key).get? k = some x) : x ∈ l :=
  (mem_of_get?_foldl_put h).resolve_right fun hempty => by cases hempty

/-- A list of stores takes no key away. -/
theorem has_foldl_put {l : List α} {t : Table key} {k : κ} (h : t.has k = true) :
    (l.foldl put t).has k = true := by
  induction l generalizing t with
  | nil => exact h
  | cons x l ih => exact ih (has_put h)

/-- The table of a list has every key of the list. -/
theorem has_ofList {l : List α} {x : α} (h : x ∈ l) :
    (ofList l : Table key).has (key x) = true := by
  obtain ⟨before, after, rfl⟩ := List.append_of_mem h
  unfold ofList
  rw [List.foldl_append, List.foldl_cons]
  refine has_foldl_put ?_
  unfold has
  rw [get?_put_self]
  rfl

end Lookup

/-- A lookup among the entries of a condition. -/
theorem get?_filter [DecidableEq κ] {t : Table key} {p : α → Bool} {k : κ} {x : α} :
    (t.filter p).get? k = some x ↔ t.get? k = some x ∧ p x := by
  rw [get?_eq_some, get?_eq_some, mem_filter]
  exact and_right_comm

/-! ## The equality of mappings -/

/-- The equality of mappings: the same entries, in whatever order. -/
def Same (t u : Table key) : Prop := t.entries.Perm u.entries

theorem Same.refl (t : Table key) : t.Same t := List.Perm.refl _

theorem Same.symm {t u : Table key} (h : t.Same u) : u.Same t := List.Perm.symm h

theorem Same.trans {t u v : Table key} (h : t.Same u) (h' : u.Same v) : t.Same v :=
  List.Perm.trans h h'

theorem Same.mem_iff {t u : Table key} (h : t.Same u) {x : α} : x ∈ t ↔ x ∈ u :=
  List.Perm.mem_iff h

/-- Rebuilding a table from its entries in any order gives the same mapping. -/
theorem same_ofList_of_perm [DecidableEq κ] {t : Table key} {l : List α}
    (h : l.Perm t.entries) : (ofList l : Table key).Same t := by
  have hl : (l.map key).Nodup := (h.map key).nodup_iff.mpr t.nodup
  unfold Same
  rw [entries_ofList hl]
  exact h

/-- Rebuilding a table from its sorted entries gives the same mapping. -/
theorem same_ofList_insertionSort [DecidableEq κ] (t : Table key) (r : α → α → Prop)
    [DecidableRel r] : (ofList (t.entries.insertionSort r) : Table key).Same t :=
  same_ofList_of_perm (List.perm_insertionSort r t.entries)

end Table

end Lib
