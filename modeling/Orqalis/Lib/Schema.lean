import Mathlib.Data.List.Forall2
import Mathlib.Data.List.Nodup
import Mathlib.Data.Rat.Defs

/-!
# Schemas of JSON values

What a schema says of a value. A judgment is reached in finitely many steps, so a reference that
leads round in a circle without looking at the value gives none; and the keywords are those below,
so a schema with any other gives none either. What a keyword says of a value on its own is an
argument, of which only the laws of three keywords are used.

A value is an *answer* to a schema when it is valid against it, and every object in it has exactly
the members that the nodes of type object which it is valid against declare.
-/

namespace Lib.Schema

/-! ## Values -/

/-- A JSON value. A number is its value. -/
inductive Doc where
  | null
  | bool (value : Bool)
  | num (value : ℚ)
  | str (value : String)
  | arr (items : List Doc)
  | obj (members : List (String × Doc))

/-- The members of an object. -/
abbrev Members := List (String × Doc)

/-- The members of a value; only an object has some. -/
def Doc.members : Doc → Members
  | obj ms => ms
  | _ => []

/-- The items of a value; only an array has some. -/
def Doc.items : Doc → List Doc
  | arr vs => vs
  | _ => []

/-- Whether a value is an object. -/
def Doc.isObject : Doc → Bool
  | obj _ => true
  | _ => false

/-- Whether a value is an array. -/
def Doc.isArray : Doc → Bool
  | arr _ => true
  | _ => false

/-- The names of an object's members. -/
def Doc.names (v : Doc) : List String := v.members.map Prod.fst

/-- Set a member, in place or at the end. -/
def put (ms : Members) (m : String × Doc) : Members :=
  if m.1 ∈ ms.map Prod.fst then ms.map fun x => if x.1 = m.1 then m else x else ms ++ [m]

/-- Set some members, one after the other. -/
def putAll (ms new : Members) : Members := new.foldl put ms

/-- What a node holds of a keyword, the empty object where it has none. -/
def held (node : Members) (name : String) : Doc := (node.lookup name).getD (.obj [])

section Put

variable {ms new : Members} {m x : String × Doc}

theorem mem_put : x ∈ put ms m ↔ x = m ∨ x ∈ ms ∧ x.1 ≠ m.1 := by
  unfold put
  split_ifs with h
  · obtain ⟨y, hy, hname⟩ := List.mem_map.mp h
    rw [List.mem_map]
    constructor
    · rintro ⟨z, hz, rfl⟩
      by_cases hzm : z.1 = m.1
      · exact .inl (if_pos hzm)
      · rw [if_neg hzm]
        exact .inr ⟨hz, hzm⟩
    · rintro (rfl | ⟨hx, hne⟩)
      · exact ⟨y, hy, if_pos hname⟩
      · exact ⟨x, hx, if_neg hne⟩
  · rw [List.mem_append, List.mem_singleton]
    constructor
    · rintro (hx | rfl)
      · exact .inr ⟨hx, fun hname => h (hname ▸ List.mem_map_of_mem hx)⟩
      · exact .inl rfl
    · rintro (rfl | ⟨hx, -⟩)
      · exact .inr rfl
      · exact .inl hx

theorem names_put (ms : Members) (m : String × Doc) : (put ms m).map Prod.fst =
    if m.1 ∈ ms.map Prod.fst then ms.map Prod.fst else ms.map Prod.fst ++ [m.1] := by
  unfold put
  split_ifs with h
  · rw [List.map_map]
    refine List.map_congr_left fun x hx => ?_
    show (if x.1 = m.1 then m else x).1 = x.1
    split_ifs with hx
    · exact hx.symm
    · rfl
  · rw [List.map_append]
    rfl

theorem nodup_put (h : (ms.map Prod.fst).Nodup) : ((put ms m).map Prod.fst).Nodup := by
  rw [names_put]
  split_ifs with hm
  · exact h
  · exact List.nodup_append.mpr ⟨h, List.nodup_singleton _, by
      intro a ha b hb hab
      rw [List.mem_singleton] at hb
      exact hm (hb ▸ hab ▸ ha)⟩

theorem nodup_putAll (h : (ms.map Prod.fst).Nodup) : ((putAll ms new).map Prod.fst).Nodup := by
  induction new generalizing ms with
  | nil => exact h
  | cons m new ih => exact ih (nodup_put h)

theorem mem_of_mem_putAll (h : x ∈ putAll ms new) : x ∈ ms ∨ x ∈ new := by
  induction new generalizing ms with
  | nil => exact .inl h
  | cons m new ih =>
    rcases ih h with hput | hnew
    · rcases mem_put.mp hput with rfl | ⟨hx, -⟩
      · exact .inr (List.mem_cons_self ..)
      · exact .inl hx
    · exact .inr (List.mem_cons_of_mem _ hnew)

/-- What is set last of a name, and never otherwise, is there. -/
theorem mem_putAll (h : x ∈ ms ∨ x ∈ new) (hms : ∀ y ∈ ms, y.1 = x.1 → y = x)
    (hnew : ∀ y ∈ new, y.1 = x.1 → y = x) : x ∈ putAll ms new := by
  induction new generalizing ms with
  | nil => exact h.resolve_right List.not_mem_nil
  | cons m new ih =>
    refine ih ?_ ?_ fun y hy => hnew y (List.mem_cons_of_mem _ hy)
    · by_cases hxm : m.1 = x.1
      · exact .inl (mem_put.mpr (.inl (hnew m (List.mem_cons_self ..) hxm).symm))
      · rcases h with hx | hx
        · exact .inl (mem_put.mpr (.inr ⟨hx, Ne.symm hxm⟩))
        · rcases List.mem_cons.mp hx with rfl | hx
          · exact absurd rfl hxm
          · exact .inr hx
    · intro y hy hname
      rcases mem_put.mp hy with rfl | ⟨hy, -⟩
      · exact hnew y (List.mem_cons_self ..) hname
      · exact hms y hy hname

theorem eq_of_mem_nodup (h : (ms.map Prod.fst).Nodup) (hm : m ∈ ms) (hx : x ∈ ms)
    (hname : x.1 = m.1) : x = m :=
  List.inj_on_of_nodup_map h hx hm hname

/-- Where no name is there twice, a look-up finds exactly the members. -/
theorem lookup_eq_some (h : (ms.map Prod.fst).Nodup) {name : String} {v : Doc} :
    ms.lookup name = some v ↔ (name, v) ∈ ms := by
  induction ms with
  | nil => simp
  | cons m ms ih =>
    obtain ⟨key, w⟩ := m
    obtain ⟨hhead, htail⟩ := List.nodup_cons.mp h
    rw [List.lookup_cons]
    by_cases hname : name = key
    · subst hname
      have hnot : (name, v) ∉ ms := fun hv => hhead (List.mem_map.mpr ⟨_, hv, rfl⟩)
      simp [hnot, eq_comm]
    · simp [beq_false_of_ne hname, ih htail, hname]

/-- What a node holds of a keyword that it has. -/
theorem held_of_mem (h : (ms.map Prod.fst).Nodup) {name : String} {v : Doc}
    (hv : (name, v) ∈ ms) : held ms name = v := by
  rw [held, (lookup_eq_some h).mpr hv, Option.getD_some]

/-- What a node holds, but for the empty object, it has. -/
theorem mem_of_held {name : String} {v : Doc} (h : held ms name = v) (hv : v ≠ .obj []) :
    (name, v) ∈ ms := by
  cases hlookup : ms.lookup name with
  | none =>
    rw [held, hlookup, Option.getD_none] at h
    exact absurd h.symm hv
  | some w =>
    rw [held, hlookup, Option.getD_some] at h
    obtain ⟨before, after, rfl, -⟩ := List.lookup_eq_some_iff.mp hlookup
    exact h ▸ List.mem_append_right before (List.mem_cons_self ..)

theorem held_of_not_mem (h : (ms.map Prod.fst).Nodup) {name : String}
    (hname : ∀ v, (name, v) ∉ ms) : held ms name = .obj [] := by
  cases hlookup : ms.lookup name with
  | none => rw [held, hlookup, Option.getD_none]
  | some v => exact absurd ((lookup_eq_some h).mp hlookup) (hname v)

/-- What is set is held, and what a node holds of the other keywords stays. -/
theorem held_put (h : (ms.map Prod.fst).Nodup) (m : String × Doc) (name : String) :
    held (put ms m) name = if name = m.1 then m.2 else held ms name := by
  have hput : ((put ms m).map Prod.fst).Nodup := nodup_put h
  split_ifs with hname
  · subst hname
    exact held_of_mem hput (mem_put.mpr (.inl rfl))
  · by_cases hv : ∃ v, (name, v) ∈ ms
    · obtain ⟨v, hv⟩ := hv
      rw [held_of_mem h hv]
      exact held_of_mem hput (mem_put.mpr (.inr ⟨hv, hname⟩))
    · have hnot : ∀ v, (name, v) ∉ ms := fun v hmem => hv ⟨v, hmem⟩
      rw [held_of_not_mem h hnot]
      refine held_of_not_mem hput fun v hmem => ?_
      rcases mem_put.mp hmem with rfl | ⟨hmem, -⟩
      · exact hname rfl
      · exact hnot v hmem

end Put

section Step

variable {α β : Type*} {R : α → β → Prop} {l : List α} {l' : List β}

/-- Of two lists in step, each item of the first has its partner in the second. -/
theorem exists_right (h : List.Forall₂ R l l') {a : α} (ha : a ∈ l) : ∃ b ∈ l', R a b := by
  induction h with
  | nil => cases ha
  | @cons x y l l' hxy _ ih =>
    rcases List.mem_cons.mp ha with rfl | ha
    · exact ⟨y, List.mem_cons_self .., hxy⟩
    · obtain ⟨b, hb, hab⟩ := ih ha
      exact ⟨b, List.mem_cons_of_mem _ hb, hab⟩

/-- Of two lists in step, each item of the second is the partner of one of the first. -/
theorem exists_left (h : List.Forall₂ R l l') {b : β} (hb : b ∈ l') : ∃ a ∈ l, R a b :=
  exists_right (R := fun b a => R a b) h.flip hb

/-- Of two tables in step, a name stands for partners. -/
theorem lookup_right {S : Doc → Doc → Prop} {ms ms' : Members} {name : String} {v : Doc}
    (h : List.Forall₂ (fun m m' => m'.1 = m.1 ∧ S m.2 m'.2) ms ms')
    (hv : ms.lookup name = some v) : ∃ v', S v v' ∧ ms'.lookup name = some v' := by
  induction h with
  | nil => cases hv
  | @cons m m' ms ms' hm _ ih =>
    obtain ⟨key, w⟩ := m
    obtain ⟨key', w'⟩ := m'
    obtain ⟨rfl, hw⟩ := hm
    rw [List.lookup_cons] at hv ⊢
    cases hkey : name == key' with
    | true =>
      rw [hkey] at hv
      cases hv
      exact ⟨w', hw, rfl⟩
    | false =>
      rw [hkey] at hv
      exact ih hv

/-- Two lists in step stay so beside a third. -/
theorem exists_left_zip (h : List.Forall₂ R l l') {γ : Type*} {vs : List γ} {x : β × γ}
    (hx : x ∈ l'.zip vs) : ∃ a, (a, x.2) ∈ l.zip vs ∧ R a x.1 := by
  induction h generalizing vs with
  | nil => cases hx
  | @cons a b l l' hab _ ih =>
    cases vs with
    | nil => cases hx
    | cons v vs =>
      rw [List.zip_cons_cons] at hx
      rcases List.mem_cons.mp hx with rfl | hx
      · exact ⟨a, List.mem_cons_self .., hab⟩
      · obtain ⟨c, hc, hcx⟩ := ih hx
        exact ⟨c, List.mem_cons_of_mem _ hc, hcx⟩

end Step

/-! ## Judgments -/

/-- What the validator says of a value on its own, by a keyword. -/
structure Validator where
  holds : String → Doc → Doc → Bool
  holds_const : ∀ w v : Doc, holds "const" w v = holds "enum" (.arr [w]) v
  holds_required : ∀ (names : List String) (v : Doc), v.isObject = true →
    (holds "required" (.arr (names.map .str)) v = true ↔ ∀ name ∈ names, name ∈ v.names)
  isObject_of_holds : ∀ v : Doc, holds "type" (.str "object") v = true → v.isObject = true

/-- The keywords that say nothing of a value. -/
def silent : List String :=
  ["$schema", "$comment", "$defs", "definitions", "title", "description", "default",
    "discriminator", "examples", "deprecated", "readOnly", "writeOnly", "format"]

/-- The keywords that look at a value on its own. -/
def assertions : List String :=
  ["type", "enum", "const", "required", "minimum", "maximum", "exclusiveMinimum",
    "exclusiveMaximum", "multipleOf", "minLength", "maxLength", "pattern", "minItems", "maxItems",
    "uniqueItems", "minProperties", "maxProperties"]

/-- The tables of definitions. -/
def tables : List String := ["$defs", "definitions"]

/-- The entry that a reference names: the table and the name. -/
def target (pointer : String) : Option (String × String) :=
  tables.findSome? fun table =>
    let start := ("#/" ++ table ++ "/").toList
    if start.isPrefixOf pointer.toList then
      some (table, String.ofList (pointer.toList.drop start.length))
    else none

/-- What a reference stands for. -/
def resolve (root : Members) (pointer : String) : Option Doc :=
  (target pointer).bind fun entry => (held root entry.1).members.lookup entry.2

theorem mem_tables_of_target {pointer : String} {entry : String × String}
    (h : target pointer = some entry) : entry.1 ∈ tables := by
  obtain ⟨table, htable, h⟩ := List.exists_of_findSome?_eq_some h
  dsimp only at h
  split_ifs at h
  cases h
  exact htable

/-- The names of the members that a node declares. -/
def declared (node : Members) : List String := (held node "properties").names

/-- The number of items that a node speaks of one by one. -/
def leading (node : Members) : Nat := (held node "prefixItems").items.length

/-- Whether a value has exactly the members that a node of type object declares. -/
def Exact (node : Members) (v : Doc) : Prop :=
  held node "type" = .str "object" → ∀ name, name ∈ v.names ↔ name ∈ declared node

/-- What a value is found to be. -/
inductive Grade
  | invalid
  | valid
  | answer
deriving DecidableEq

/-- Whether a value is found to be valid. -/
def Grade.good : Grade → Bool
  | invalid => false
  | _ => true

/-- What is asked: of a schema, or of a keyword of a node. -/
inductive Query
  | schema (s : Doc)
  | keyword (node : Members) (name : String) (value : Doc)

/-- What a value is found to be, in a schema with its definitions. -/
inductive Judged (V : Validator) (root : Members) : Query → Doc → Grade → Prop
  | always {v p} (hp : p.good = true) : Judged V root (.schema (.bool true)) v p
  | never {v} : Judged V root (.schema (.bool false)) v .invalid
  | node {ms v p} (hp : p.good = true) (hnodup : (ms.map Prod.fst).Nodup)
      (hexact : p = .answer → Exact ms v)
      (h : ∀ m ∈ ms, Judged V root (.keyword ms m.1 m.2) v p) :
      Judged V root (.schema (.obj ms)) v p
  | fails {ms m v} (hm : m ∈ ms) (h : Judged V root (.keyword ms m.1 m.2) v .invalid) :
      Judged V root (.schema (.obj ms)) v .invalid
  | silent {node name value v p} (hp : p.good = true) (hname : name ∈ silent) :
      Judged V root (.keyword node name value) v p
  | holds {node name value v p} (hp : p.good = true) (hname : name ∈ assertions)
      (hvalue : value.isObject = false) (h : V.holds name value v = true) :
      Judged V root (.keyword node name value) v p
  | denies {node name value v} (hname : name ∈ assertions) (hvalue : value.isObject = false)
      (h : V.holds name value v = false) : Judged V root (.keyword node name value) v .invalid
  | properties {node name props v p} (hp : p.good = true) (hname : name = "properties")
      (h : ∀ q ∈ props, ∀ x ∈ v.members, x.1 = q.1 → Judged V root (.schema q.2) x.2 p) :
      Judged V root (.keyword node name (.obj props)) v p
  | property {node name props q x v} (hname : name = "properties") (hq : q ∈ props)
      (hx : x ∈ v.members) (hqx : x.1 = q.1) (h : Judged V root (.schema q.2) x.2 .invalid) :
      Judged V root (.keyword node name (.obj props)) v .invalid
  | additional {node name s v p} (hp : p.good = true) (hname : name = "additionalProperties")
      (h : ∀ x ∈ v.members, x.1 ∉ declared node → Judged V root (.schema s) x.2 p) :
      Judged V root (.keyword node name s) v p
  | surplus {node name s x v} (hname : name = "additionalProperties") (hx : x ∈ v.members)
      (hnot : x.1 ∉ declared node) (h : Judged V root (.schema s) x.2 .invalid) :
      Judged V root (.keyword node name s) v .invalid
  | items {node name s v p} (hp : p.good = true) (hname : name = "items")
      (h : ∀ x ∈ v.items.drop (leading node), Judged V root (.schema s) x p) :
      Judged V root (.keyword node name s) v p
  | item {node name s x v} (hname : name = "items") (hx : x ∈ v.items.drop (leading node))
      (h : Judged V root (.schema s) x .invalid) : Judged V root (.keyword node name s) v .invalid
  | leading {node name ss v p} (hp : p.good = true) (hname : name = "prefixItems")
      (h : ∀ x ∈ ss.zip v.items, Judged V root (.schema x.1) x.2 p) :
      Judged V root (.keyword node name (.arr ss)) v p
  | led {node name ss x v} (hname : name = "prefixItems") (hx : x ∈ ss.zip v.items)
      (h : Judged V root (.schema x.1) x.2 .invalid) :
      Judged V root (.keyword node name (.arr ss)) v .invalid
  | allOf {node name ss v p} (hp : p.good = true) (hname : name = "allOf")
      (h : ∀ s ∈ ss, Judged V root (.schema s) v p) :
      Judged V root (.keyword node name (.arr ss)) v p
  | notAll {node name ss s v} (hname : name = "allOf") (hs : s ∈ ss)
      (h : Judged V root (.schema s) v .invalid) :
      Judged V root (.keyword node name (.arr ss)) v .invalid
  | anyOf {node name ss s v p} (hp : p.good = true) (hname : name = "anyOf") (hs : s ∈ ss)
      (h : Judged V root (.schema s) v p) : Judged V root (.keyword node name (.arr ss)) v p
  | notAny {node name ss v} (hname : name = "anyOf")
      (h : ∀ s ∈ ss, Judged V root (.schema s) v .invalid) :
      Judged V root (.keyword node name (.arr ss)) v .invalid
  | oneOf {node name before s after v p} (hp : p.good = true) (hname : name = "oneOf")
      (h : Judged V root (.schema s) v p)
      (hothers : ∀ t ∈ before ++ after, Judged V root (.schema t) v .invalid) :
      Judged V root (.keyword node name (.arr (before ++ s :: after))) v p
  | notOne {node name ss v} (hname : name = "oneOf")
      (h : ∀ s ∈ ss, Judged V root (.schema s) v .invalid) :
      Judged V root (.keyword node name (.arr ss)) v .invalid
  | several {node name before s between t after v} (hname : name = "oneOf")
      (hs : Judged V root (.schema s) v .valid) (ht : Judged V root (.schema t) v .valid) :
      Judged V root (.keyword node name (.arr (before ++ s :: between ++ t :: after))) v .invalid
  | ref {node name pointer s v p} (hname : name = "$ref") (hs : resolve root pointer = some s)
      (h : Judged V root (.schema s) v p) : Judged V root (.keyword node name (.str pointer)) v p

variable {V : Validator} {root node : Members} {name : String} {value v s : Doc} {p : Grade}

/-- What a keyword says of a value that it looks at on its own. -/
theorem Judged.holds_of_good (h : Judged V root (.keyword node name value) v p)
    (hp : p.good = true) (hname : name ∈ assertions) : V.holds name value v = true := by
  have hsilent : ∀ name ∈ Schema.silent, name ∉ assertions := by decide
  cases h with
  | silent hp hs => exact absurd hname (hsilent _ hs)
  | holds hp hname hvalue h => exact h
  | denies hname hvalue h => cases hp
  | properties | property | additional | surplus | items | item | leading | led | allOf | notAll
  | anyOf | notAny | oneOf | notOne | several | ref =>
    subst_vars
    exact absurd hname (by decide)

/-- A value has no members beside the declared ones where no others are allowed. -/
theorem Judged.declared_of_good
    (h : Judged V root (.keyword node "additionalProperties" (.bool false)) v p)
    (hp : p.good = true) {x : String × Doc} (hx : x ∈ v.members) : x.1 ∈ declared node := by
  by_contra hnot
  cases h with
  | silent hp hname => exact absurd hname (by decide)
  | holds hp hname => exact absurd hname (by decide)
  | denies hname => exact absurd hname (by decide)
  | additional hp hname h => cases h x hx hnot with
    | never => cases hp
  | surplus => cases hp
  | items hp hname => exact absurd hname (by decide)
  | item hname => exact absurd hname (by decide)

end Lib.Schema
