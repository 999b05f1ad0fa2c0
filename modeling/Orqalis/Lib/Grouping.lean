import Mathlib.Data.List.Induction
import Mathlib.Data.List.Nodup

/-!
# Groups by key

Values that come in pairs with their keys are collected by key: each group has its values in the
order in which they first came, without repetitions, and the groups are in the order in which their
keys first came. What a group holds depends on the pairs of its key alone (`mem_group`).
-/

namespace Lib.Grouping

variable {κ β : Type*} [DecidableEq κ] [DecidableEq β]

/-! ## Lists without repetitions -/

/-- Append a value, unless it is there. -/
def insertNew (bs : List β) (b : β) : List β := if b ∈ bs then bs else bs ++ [b]

/-- A list without its repetitions, in the order of the first ones. -/
def distinct (l : List β) : List β := l.foldl insertNew []

@[simp] theorem mem_insertNew {bs : List β} {b c : β} : c ∈ insertNew bs b ↔ c ∈ bs ∨ c = b := by
  unfold insertNew
  split_ifs with h
  · exact ⟨.inl, fun hc => hc.elim id fun hc => hc ▸ h⟩
  · rw [List.mem_append, List.mem_singleton]

theorem nodup_insertNew {bs : List β} (h : bs.Nodup) (b : β) : (insertNew bs b).Nodup := by
  unfold insertNew
  split_ifs with hb
  · exact h
  · exact List.concat_eq_append ▸ h.concat hb

theorem insertNew_ne_nil (bs : List β) (b : β) : insertNew bs b ≠ [] :=
  List.ne_nil_of_mem (mem_insertNew.mpr (.inr rfl))

@[simp] theorem distinct_nil : distinct ([] : List β) = [] := rfl

theorem distinct_concat (l : List β) (b : β) : distinct (l ++ [b]) = insertNew (distinct l) b :=
  List.foldl_concat ..

@[simp] theorem mem_distinct {l : List β} {b : β} : b ∈ distinct l ↔ b ∈ l := by
  induction l using List.reverseRecOn with
  | nil => exact Iff.rfl
  | append_singleton l c ih => rw [distinct_concat, mem_insertNew, ih, List.mem_append,
      List.mem_singleton]

theorem nodup_distinct (l : List β) : (distinct l).Nodup := by
  induction l using List.reverseRecOn with
  | nil => exact List.nodup_nil
  | append_singleton l b ih =>
    rw [distinct_concat]
    exact nodup_insertNew ih b

/-- A list without repetitions is as it was. -/
theorem distinct_of_nodup {l : List β} (h : l.Nodup) : distinct l = l := by
  induction l using List.reverseRecOn with
  | nil => rfl
  | append_singleton l b ih =>
    obtain ⟨hl, -, hb⟩ := List.nodup_append.mp h
    rw [distinct_concat, ih hl, insertNew, if_neg]
    exact fun hmem => hb b hmem b (List.mem_singleton_self b) rfl

/-- Values that came before add nothing. -/
theorem distinct_append_of_subset {l m : List β} (h : m ⊆ l) : distinct (l ++ m) = distinct l := by
  induction m using List.reverseRecOn with
  | nil => rw [List.append_nil]
  | append_singleton m b ih =>
    have hb : b ∈ l := h (List.mem_append_right _ (List.mem_singleton_self b))
    rw [← List.append_assoc, distinct_concat, ih fun c hc => h (List.mem_append_left _ hc),
      insertNew, if_pos (mem_distinct.mpr hb)]

/-! ## Groups -/

/-- Add a value to the group of its key. -/
def add : List (κ × List β) → κ × β → List (κ × List β)
  | [], p => [(p.1, [p.2])]
  | g :: groups, p =>
    if g.1 = p.1 then (g.1, insertNew g.2 p.2) :: groups else g :: add groups p

/-- The groups of a list of pairs. -/
def group (pairs : List (κ × β)) : List (κ × List β) := pairs.foldl add []

/-- The values that come with a key. -/
def valuesOf (pairs : List (κ × β)) (k : κ) : List β :=
  (pairs.filter fun p => p.1 = k).map Prod.snd

omit [DecidableEq β] in
theorem mem_valuesOf {pairs : List (κ × β)} {k : κ} {b : β} :
    b ∈ valuesOf pairs k ↔ (k, b) ∈ pairs := by
  unfold valuesOf
  rw [List.mem_map]
  constructor
  · rintro ⟨p, hp, rfl⟩
    obtain ⟨hp, hk⟩ := List.mem_filter.mp hp
    exact of_decide_eq_true hk ▸ hp
  · exact fun h => ⟨(k, b), List.mem_filter.mpr ⟨h, decide_eq_true rfl⟩, rfl⟩

omit [DecidableEq β] in
theorem valuesOf_append (pairs pairs' : List (κ × β)) (k : κ) :
    valuesOf (pairs ++ pairs') k = valuesOf pairs k ++ valuesOf pairs' k := by
  unfold valuesOf
  rw [List.filter_append, List.map_append]

omit [DecidableEq β] in
theorem valuesOf_flatMap {α : Type*} (l : List α) (f : α → List (κ × β)) (k : κ) :
    valuesOf (l.flatMap f) k = l.flatMap fun a => valuesOf (f a) k := by
  induction l with
  | nil => rfl
  | cons a l ih => rw [List.flatMap_cons, valuesOf_append, ih, List.flatMap_cons]

omit [DecidableEq β] in
/-- One value under many keys comes once with each of them. -/
theorem valuesOf_keys {keys : List κ} (h : keys.Nodup) (b : β) (k : κ) :
    valuesOf (keys.map fun key => (key, b)) k = if k ∈ keys then [b] else [] := by
  induction keys with
  | nil => rfl
  | cons key keys ih =>
    obtain ⟨hkey, hkeys⟩ := List.nodup_cons.mp h
    have hfirst : valuesOf [(key, b)] k = if key = k then [b] else [] := by
      unfold valuesOf
      split_ifs with hk <;> simp [hk]
    rw [List.map_cons, ← List.singleton_append, valuesOf_append, hfirst, ih hkeys]
    by_cases hk : key = k
    · rw [if_pos hk, if_neg (hk ▸ hkey), if_pos (List.mem_cons.mpr (.inl hk.symm)),
        List.append_nil]
    · rw [if_neg hk, List.nil_append]
      exact if_congr (by simp [Ne.symm hk]) rfl rfl

theorem group_concat (pairs : List (κ × β)) (p : κ × β) :
    group (pairs ++ [p]) = add (group pairs) p := List.foldl_concat ..

theorem keys_add (groups : List (κ × List β)) (p : κ × β) :
    (add groups p).map Prod.fst = insertNew (groups.map Prod.fst) p.1 := by
  induction groups with
  | nil => rfl
  | cons g groups ih =>
    unfold add
    split_ifs with h
    · have hmem : p.1 ∈ (g :: groups).map Prod.fst := List.mem_cons.mpr (.inl h.symm)
      exact (if_pos hmem).symm
    · rw [List.map_cons, ih, List.map_cons]
      unfold insertNew
      by_cases hp : p.1 ∈ groups.map Prod.fst
      · rw [if_pos hp, if_pos (List.mem_cons_of_mem _ hp)]
      · rw [if_neg hp, if_neg fun hmem => (List.mem_cons.mp hmem).elim (fun he => h he.symm) hp]
        rfl

/-- Each key has one group. -/
theorem nodup_group (pairs : List (κ × β)) : ((group pairs).map Prod.fst).Nodup := by
  induction pairs using List.reverseRecOn with
  | nil => exact List.nodup_nil
  | append_singleton pairs p ih =>
    rw [group_concat, keys_add]
    exact nodup_insertNew ih p.1

/-- The group of the key grows, or is a new one; the others stay. -/
theorem lookup_add (groups : List (κ × List β)) (p : κ × β) (k : κ) :
    (add groups p).lookup k =
      if k = p.1 then some (insertNew ((groups.lookup k).getD []) p.2) else groups.lookup k := by
  induction groups with
  | nil =>
    unfold add
    rw [List.lookup_cons]
    by_cases hk : k = p.1
    · rw [if_pos hk, beq_iff_eq.mpr hk]
      rfl
    · rw [if_neg hk, beq_eq_false_iff_ne.mpr hk]
  | cons g groups ih =>
    unfold add
    by_cases hg : g.1 = p.1
    · rw [if_pos hg, List.lookup_cons, List.lookup_cons]
      by_cases hk : k = p.1
      · rw [if_pos hk, beq_iff_eq.mpr (hk.trans hg.symm)]
        rfl
      · rw [if_neg hk, beq_eq_false_iff_ne.mpr fun h => hk (h.trans hg)]
    · rw [if_neg hg, List.lookup_cons, ih, List.lookup_cons]
      by_cases hk : k = g.1
      · have hother : k ≠ p.1 := fun h => hg (hk.symm.trans h)
        rw [beq_iff_eq.mpr hk]
        exact (if_neg hother).symm
      · rw [beq_eq_false_iff_ne.mpr hk]

/-- A group holds the values that come with its key, each once. -/
theorem lookup_group (pairs : List (κ × β)) (k : κ) :
    (group pairs).lookup k =
      if valuesOf pairs k = [] then none else some (distinct (valuesOf pairs k)) := by
  induction pairs using List.reverseRecOn with
  | nil => rfl
  | append_singleton pairs p ih =>
    rw [group_concat, lookup_add, ih, valuesOf_append]
    by_cases hk : k = p.1
    · have hlast : valuesOf [p] k = [p.2] := by
        simp [valuesOf, hk]
      have hsome : valuesOf pairs k ++ [p.2] ≠ [] := by simp
      rw [if_pos hk, hlast, distinct_concat, if_neg hsome]
      by_cases hnil : valuesOf pairs k = []
      · rw [if_pos hnil, hnil]
        rfl
      · rw [if_neg hnil]
        rfl
    · have hlast : valuesOf [p] k = [] := by
        simp [valuesOf, Ne.symm hk]
      rw [if_neg hk, hlast, List.append_nil]

omit [DecidableEq β] in
/-- Where keys are not repeated, what is there is what is found. -/
theorem mem_iff_lookup {entries : List (κ × β)} (h : (entries.map Prod.fst).Nodup) {k : κ}
    {b : β} : (k, b) ∈ entries ↔ entries.lookup k = some b := by
  induction entries with
  | nil => simp
  | cons e entries ih =>
    obtain ⟨hkey, hentries⟩ := List.nodup_cons.mp h
    rw [List.mem_cons, List.lookup_cons]
    by_cases hk : k = e.1
    · rw [beq_iff_eq.mpr hk]
      constructor
      · rintro (he | hmem)
        · exact congrArg some (congrArg Prod.snd he).symm
        · exact absurd (List.mem_map_of_mem hmem) (hk ▸ hkey)
      · intro he
        exact .inl (Prod.ext hk (Option.some.inj he).symm)
    · rw [beq_eq_false_iff_ne.mpr hk, ih hentries]
      exact or_iff_right fun he => hk (congrArg Prod.fst he)

/-- What a group holds depends on the pairs of its key alone. -/
theorem mem_group {pairs : List (κ × β)} {k : κ} {bs : List β} :
    (k, bs) ∈ group pairs ↔ valuesOf pairs k ≠ [] ∧ bs = distinct (valuesOf pairs k) := by
  rw [mem_iff_lookup (nodup_group pairs), lookup_group]
  split_ifs with hnil
  · exact iff_of_false (by simp) fun h => h.1 hnil
  · rw [Option.some_inj]
    exact ⟨fun h => ⟨hnil, h.symm⟩, fun h => h.2.symm⟩

end Lib.Grouping
