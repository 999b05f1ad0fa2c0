import Mathlib.Data.List.ReduceOption
import Orqalis.Lib.Outcome
import Orqalis.Lib.Schema
import Orqalis.Lib.Text

/-!
# Schemas for the providers

A provider takes a schema of its own grammar: constraints it does not know become a part of the
description, and the objects are closed. Either adapter is one walk with a table of its own, and
what the two have in common are the laws at the end.
-/

namespace Orqalis

open Lib Lib.Schema Lib.Outcome

/-- The code of a provider's error. -/
inductive ProviderErrorCode
  | invalidOutput

namespace SchemaAdapter

/-- What the language's library answers: the JSON text of an object, and the text of a value. -/
structure Printer where
  dumps : Members → String
  str : Doc → String

/-- Whether a reference stays in its document. -/
def localReference : Doc → Bool
  | .str pointer => pointer.toList.head? = some '#'
  | _ => false

mutual

/-- Whether every reference in a value is a local one. -/
def inspect : Doc → Bool
  | .obj ms => inspectMembers ms
  | .arr vs => inspectItems vs
  | _ => true

/-- Whether every reference in some members is a local one. -/
def inspectMembers : Members → Bool
  | [] => true
  | (key, item) :: ms =>
    (key ∉ ["$ref", "$dynamicRef"] || localReference item) && inspect item && inspectMembers ms

/-- Whether every reference in some items is a local one. -/
def inspectItems : List Doc → Bool
  | [] => true
  | item :: vs => inspect item && inspectItems vs

end

/-- `check_schema` -/
def checkSchema (metaschema : Doc → Bool) (schema : Members) : Except ProviderErrorCode PUnit :=
  if inspect (.obj schema) = true ∧ metaschema (.obj schema) = true then .ok ⟨⟩
  else .error .invalidOutput

/-! ## Adapters -/

/-- What an adapter makes of a keyword: it refuses it, notes it as a constraint, passes over it,
writes a value as it is, or adapts what its value holds, a schema, a table of schemas or a list of
schemas. -/
inductive Treatment
  | refused
  | constraint
  | skipped
  | writes (key : String) (value : Doc)
  | node (key : String)
  | table (key : String)
  | list (key : String)

/-- Whether a keyword is noted as a constraint. -/
def Treatment.notes : Treatment → Bool
  | constraint => true
  | _ => false

/-- What tells one adapter from another. -/
structure Adapter where
  treatment : String → Doc → Treatment
  close : Members → Except ProviderErrorCode Members
  heading : String

variable (P : Printer) (A : Adapter)

/-- The text a description begins with. -/
def descriptionOf (result : Members) : String :=
  match result.lookup "description" with
  | none => ""
  | some (.str text) => text
  | some v => P.str v

/-- Put the constraints into the description. -/
def describe (constraints result : Members) : Members :=
  if constraints = [] then result
  else
    let text := descriptionOf P result ++ A.heading ++ P.dumps constraints
    put result ("description", .str (String.ofList (Text.strip text.toList)))

/-- What is made of a node when its keywords are adapted. -/
def finish (node kept : Members) : Except ProviderErrorCode Members := do
  let result ← A.close (putAll [] kept)
  return describe P A (node.filter fun m => (A.treatment m.1 m.2).notes) result

mutual

/-- `visit`, of an object; any other value stays as it is. -/
def visit : Doc → Except ProviderErrorCode Doc
  | .obj ms => do
    let kept ← visitMembers ms
    return .obj (← finish P A ms kept)
  | v => .ok v

/-- The keywords of a node that are written, in turn. -/
def visitMembers : Members → Except ProviderErrorCode Members
  | [] => .ok []
  | (name, value) :: ms =>
    match A.treatment name value with
    | .refused => .error .invalidOutput
    | .constraint | .skipped => visitMembers ms
    | .writes key value => do return (key, value) :: (← visitMembers ms)
    | .node key => do
      let value ← visit value
      return (key, value) :: (← visitMembers ms)
    | .table key => do
      let value ← visitTable value
      return (key, value) :: (← visitMembers ms)
    | .list key => do
      let value ← visitList value
      return (key, value) :: (← visitMembers ms)

/-- A table of schemas, each adapted. -/
def visitTable : Doc → Except ProviderErrorCode Doc
  | .obj ms => do return .obj (← visitEntries ms)
  | v => .ok v

/-- Entries of a table, each adapted. -/
def visitEntries : Members → Except ProviderErrorCode Members
  | [] => .ok []
  | (name, child) :: ms => do
    let child ← visit child
    return (name, child) :: (← visitEntries ms)

/-- A list of schemas, each adapted. -/
def visitList : Doc → Except ProviderErrorCode Doc
  | .arr ss => do return .arr (← visitItems ss)
  | v => .ok v

/-- Items of a list, each adapted. -/
def visitItems : List Doc → Except ProviderErrorCode (List Doc)
  | [] => .ok []
  | child :: ss => do
    let child ← visit child
    return child :: (← visitItems ss)

end

/-- Whether a node is one of type object. -/
def objectNode (node : Members) : Bool :=
  match held node "type" with
  | .str kind => kind = "object"
  | _ => false

/-! ## The adapter for OpenAI -/

/-- `_LOCAL_CONSTRAINTS` -/
def localConstraints : List String :=
  ["minimum", "maximum", "exclusiveMinimum", "exclusiveMaximum", "multipleOf", "minLength",
    "maxLength", "pattern", "format", "minItems", "maxItems", "uniqueItems"]

/-- `_UNSUPPORTED` -/
def unsupported : List String :=
  ["allOf", "not", "dependentRequired", "dependentSchemas", "if", "then", "else",
    "patternProperties", "prefixItems"]

/-- `in (None, False)` -/
def noneOrFalse : Option Doc → Bool
  | none => true
  | some .null => true
  | some (.bool value) => !value
  | some (.num q) => q = 0
  | some _ => false

/-- Close an object, and require every member it declares. -/
def requireAll (result : Members) : Except ProviderErrorCode Members :=
  if objectNode result then
    if noneOrFalse (result.lookup "additionalProperties") then
      match held result "properties" with
      | .obj properties =>
        .ok (put (put (put result ("properties", .obj properties))
          ("required", .arr ((properties.map Prod.fst).map .str)))
          ("additionalProperties", .bool false))
      | _ => .error .invalidOutput
    else .error .invalidOutput
  else .ok result

/-- What becomes of a keyword in the strict grammar. -/
def openaiTreatment (key : String) (value : Doc) : Treatment :=
  if key ∈ unsupported then .refused
  else if key ∈ localConstraints ∨ key = "default" then .constraint
  else if key = "discriminator" then .skipped
  else if key = "const" then .writes "enum" (.arr [value])
  else if key ∈ ["properties", "$defs", "definitions"] ∧ value.isObject then .table key
  else if key ∈ ["anyOf", "oneOf"] ∧ value.isArray then .list "anyOf"
  else if value.isObject then .node key
  else .writes key value

/-- The adapter for OpenAI. -/
def openai : Adapter where
  treatment := openaiTreatment
  close := requireAll
  heading := " Domain constraints/defaults: "

/-- `openai_schema` -/
def openaiSchema (metaschema : Doc → Bool) (schema : Members) :
    Except ProviderErrorCode Members := do
  checkSchema metaschema schema
  if objectNode schema then finish P openai schema (← visitMembers P openai schema)
  else .error .invalidOutput

/-! ## The adapter for Anthropic -/

/-- `_CONSTRAINTS` -/
def constraints : List String :=
  ["minimum", "maximum", "exclusiveMinimum", "exclusiveMaximum", "multipleOf", "minLength",
    "maxLength", "maxItems", "uniqueItems", "pattern"]

/-- `in (0, 1)` -/
def zeroOrOne : Doc → Bool
  | .num q => q = 0 ∨ q = 1
  | .bool _ => true
  | _ => false

/-- Close an object. -/
def closeObject (result : Members) : Except ProviderErrorCode Members :=
  if objectNode result then
    if (result.lookup "additionalProperties").any Doc.isObject then .error .invalidOutput
    else .ok (put result ("additionalProperties", .bool false))
  else .ok result

/-- What becomes of a keyword in the grammar of Anthropic. -/
def anthropicTreatment (key : String) (value : Doc) : Treatment :=
  if key ∈ constraints ∨ key = "minItems" ∧ zeroOrOne value = false then .constraint
  else if key ∈ ["properties", "$defs", "definitions", "patternProperties"] ∧ value.isObject then
    .table key
  else if key ∈ ["anyOf", "allOf", "oneOf", "prefixItems"] ∧ value.isArray then
    .list (if key = "oneOf" then "anyOf" else key)
  else if key = "discriminator" then .skipped
  else if value.isObject then .node key
  else .writes key value

/-- The adapter for Anthropic. -/
def anthropic : Adapter where
  treatment := anthropicTreatment
  close := closeObject
  heading := " Required constraints: "

/-- `anthropic_schema` -/
def anthropicSchema (metaschema : Doc → Bool) (schema : Members) :
    Except ProviderErrorCode Members := do
  checkSchema metaschema schema
  finish P anthropic schema (← visitMembers P anthropic schema)

/-! ## What an adapter writes -/

variable {P A}

/-- What is written of a keyword, if anything is. -/
def written (P : Printer) (A : Adapter) (m : String × Doc) :
    Except ProviderErrorCode (Option (String × Doc)) :=
  match A.treatment m.1 m.2 with
  | .refused => .error .invalidOutput
  | .constraint | .skipped => .ok none
  | .writes key value => .ok (some (key, value))
  | .node key => (visit P A m.2).map fun v => some (key, v)
  | .table key => (visitTable P A m.2).map fun v => some (key, v)
  | .list key => (visitList P A m.2).map fun v => some (key, v)

/-- A keyword and what is written of it. -/
def Image (P : Printer) (A : Adapter) (m m' : String × Doc) : Prop :=
  written P A m = .ok (some m')

/-- A schema and what it is adapted to. -/
def Adapted (P : Printer) (A : Adapter) (s s' : Doc) : Prop := visit P A s = .ok s'

theorem visit_obj {ms : Members} {s' : Doc} : visit P A (.obj ms) = .ok s' ↔
    ∃ kept final, visitMembers P A ms = .ok kept ∧ finish P A ms kept = .ok final ∧
      s' = .obj final := by
  rw [visit]
  constructor
  · intro h
    obtain ⟨kept, hkept, h⟩ := bind_eq_ok.mp h
    obtain ⟨final, hfinal, h⟩ := bind_eq_ok.mp h
    cases h
    exact ⟨kept, final, hkept, hfinal, rfl⟩
  · rintro ⟨kept, final, hkept, hfinal, rfl⟩
    rw [hkept, ok_bind, hfinal, ok_bind]
    rfl

theorem visit_other {v s' : Doc} (hv : v.isObject = false) : visit P A v = .ok s' ↔ s' = v := by
  cases v with
  | obj ms => cases hv
  | null | bool | num | str | arr =>
    rw [visit, Except.ok.injEq, eq_comm]
    intro ms h
    cases h

/-- Only an object is adapted to an object. -/
theorem eq_of_visit {v v' : Doc} (h : visit P A v = .ok v') (hv : v'.isObject = false) :
    v' = v := by
  cases hobj : v.isObject with
  | false => exact (visit_other hobj).mp h
  | true =>
    cases v with
    | obj ms =>
      obtain ⟨_, _, -, -, rfl⟩ := visit_obj.mp h
      cases hv
    | null | bool | num | str | arr => cases hobj

/-- What is no array has no items, adapted or not. -/
theorem items_of_visit {v v' : Doc} (h : visit P A v = .ok v') (hv : v.isArray = false) :
    v'.items = v.items := by
  cases v with
  | obj ms =>
    obtain ⟨_, _, -, -, rfl⟩ := visit_obj.mp h
    rfl
  | arr => cases hv
  | null | bool | num | str => rw [(visit_other rfl).mp h]

theorem visitEntries_eq (ms : Members) : visitEntries P A ms =
    ms.mapM fun m => do return (m.1, ← visit P A m.2) := by
  induction ms with
  | nil => rfl
  | cons m ms ih =>
    obtain ⟨name, child⟩ := m
    rw [visitEntries, List.mapM_cons, ih]
    cases visit P A child <;> rfl

theorem visitItems_eq (ss : List Doc) : visitItems P A ss = ss.mapM (visit P A) := by
  induction ss with
  | nil => rfl
  | cons s ss ih =>
    rw [visitItems, List.mapM_cons, ih]

/-- The entries of an adapted table are those of the table, each adapted. -/
theorem forall₂_of_visitEntries {ms ms' : Members} (h : visitEntries P A ms = .ok ms') :
    List.Forall₂ (fun m m' => m'.1 = m.1 ∧ Adapted P A m.2 m'.2) ms ms' := by
  rw [visitEntries_eq] at h
  refine (forall₂_of_mapM_eq_ok h).imp fun m m' hm => ?_
  obtain ⟨child, hchild, hm⟩ := bind_eq_ok.mp hm
  cases hm
  exact ⟨rfl, hchild⟩

theorem forall₂_of_visitItems {ss ss' : List Doc} (h : visitItems P A ss = .ok ss') :
    List.Forall₂ (Adapted P A) ss ss' := by
  rw [visitItems_eq] at h
  exact forall₂_of_mapM_eq_ok h

theorem visitTable_obj {ms : Members} {v : Doc} (h : visitTable P A (.obj ms) = .ok v) :
    ∃ ms', v = .obj ms' ∧
      List.Forall₂ (fun m m' => m'.1 = m.1 ∧ Adapted P A m.2 m'.2) ms ms' := by
  rw [visitTable] at h
  obtain ⟨ms', hms, h⟩ := bind_eq_ok.mp h
  cases h
  exact ⟨ms', rfl, forall₂_of_visitEntries hms⟩

theorem visitList_arr {ss : List Doc} {v : Doc} (h : visitList P A (.arr ss) = .ok v) :
    ∃ ss', v = .arr ss' ∧ List.Forall₂ (Adapted P A) ss ss' := by
  rw [visitList] at h
  obtain ⟨ss', hss, h⟩ := bind_eq_ok.mp h
  cases h
  exact ⟨ss', rfl, forall₂_of_visitItems hss⟩

theorem visitMembers_eq (ms : Members) : visitMembers P A ms =
    (ms.mapM (written P A)).map List.reduceOption := by
  induction ms with
  | nil => rfl
  | cons m ms ih =>
    obtain ⟨name, value⟩ := m
    rw [visitMembers, List.mapM_cons, ih, written]
    cases A.treatment name value with
    | refused => rfl
    | constraint | skipped | writes key v => cases ms.mapM (written P A) <;> rfl
    | node key => cases visit P A value <;> cases ms.mapM (written P A) <;> rfl
    | table key => cases visitTable P A value <;> cases ms.mapM (written P A) <;> rfl
    | list key => cases visitList P A value <;> cases ms.mapM (written P A) <;> rfl

/-- What is written is written of a keyword. -/
theorem exists_image {ms kept : Members} (h : visitMembers P A ms = .ok kept) {m' : String × Doc}
    (hm : m' ∈ kept) : ∃ m ∈ ms, Image P A m m' := by
  rw [visitMembers_eq] at h
  obtain ⟨all, hall, rfl⟩ := map_eq_ok.mp h
  exact exists_of_mapM_eq_ok hall (List.reduceOption_mem_iff.mp hm)

/-- A keyword of which something is written has it written. -/
theorem image_mem {ms kept : Members} (h : visitMembers P A ms = .ok kept) {m : String × Doc}
    (hm : m ∈ ms) (hwritten : written P A m ≠ .ok none) : ∃ m' ∈ kept, Image P A m m' := by
  rw [visitMembers_eq] at h
  obtain ⟨all, hall, rfl⟩ := map_eq_ok.mp h
  obtain ⟨r, hr, himage⟩ := exists_right (forall₂_of_mapM_eq_ok hall) hm
  cases r with
  | none => exact absurd himage hwritten
  | some m' => exact ⟨m', List.reduceOption_mem_iff.mpr hr, himage⟩

/-! ## The laws of an adapter -/

/-- The keywords whose objects are tables of schemas. -/
def tableKeywords : List String := ["properties", "$defs", "definitions"]

/-- The keywords whose arrays are lists of schemas. -/
def listKeywords : List String := ["anyOf", "allOf", "oneOf", "prefixItems"]

/-- What is written of a keyword in either grammar: the constant as the one value there is, a table
or a list with its schemas adapted, an alternative of one for an alternative of any, and of any
other keyword what it holds, adapted. -/
inductive Rewrites (P : Printer) (A : Adapter) : String × Doc → String × Doc → Prop
  | const {m m'} (hname : m.1 = "const") (hm : m' = ("enum", .arr [m.2])) : Rewrites P A m m'
  | table {m m'} (hname : m.1 ∈ "patternProperties" :: tableKeywords) (hkey : m'.1 = m.1)
      (hv : visitTable P A m.2 = .ok m'.2) : Rewrites P A m m'
  | list {m m'} (hname : m.1 ∈ listKeywords) (hvalue : m.2.isArray = true)
      (hkey : m'.1 = if m.1 = "oneOf" then "anyOf" else m.1)
      (hv : visitList P A m.2 = .ok m'.2) : Rewrites P A m m'
  | schema {m m'} (htable : m.1 ∈ tableKeywords → m.2.isObject = false)
      (hlist : m.1 ∈ listKeywords → m.2.isArray = false) (hkey : m'.1 = m.1)
      (hv : visit P A m.2 = .ok m'.2) : Rewrites P A m m'

/-- The keywords of a node that a judgment looks up. -/
def looked : List String := ["type", "properties", "prefixItems", "$defs", "definitions"]

/-- What the adapters have in common. -/
structure Lawful (P : Printer) (A : Adapter) : Prop where
  rewrites : ∀ {m m'}, Image P A m m' → Rewrites P A m m'
  writes : ∀ {m}, m.1 ∈ looked → written P A m ≠ .ok none
  nodup : ∀ {result closed}, A.close result = .ok closed → (result.map Prod.fst).Nodup →
    (closed.map Prod.fst).Nodup
  looks : ∀ {result closed}, A.close result = .ok closed → (result.map Prod.fst).Nodup →
    ∀ name ∈ looked, held closed name = held result name
  closes : ∀ {result closed}, A.close result = .ok closed → (result.map Prod.fst).Nodup →
    ∀ m ∈ closed, m ∈ result ∨ objectNode closed = true ∧
      (m = ("additionalProperties", .bool false) ∨ m = ("properties", .obj []) ∨
        m = ("required", .arr ((declared closed).map .str)))

section Rules

variable {m m' : String × Doc}

/-- A keyword that holds no table and no list keeps its name, and what it holds is adapted. -/
theorem Rewrites.plain (h : Rewrites P A m m') (hconst : m.1 ≠ "const")
    (htable : m.1 ∉ "patternProperties" :: tableKeywords)
    (hlist : m.1 ∈ listKeywords → m.2.isArray = false) :
    m'.1 = m.1 ∧ visit P A m.2 = .ok m'.2 := by
  cases h with
  | const hname => exact absurd hname hconst
  | table hname => exact absurd hname htable
  | list hname hvalue => exact absurd hvalue (Bool.eq_false_iff.mp (hlist hname))
  | schema _ _ hkey hv => exact ⟨hkey, hv⟩

theorem Rewrites.silent (h : Rewrites P A m m') (hname : m.1 ∈ Schema.silent) :
    m'.1 ∈ Schema.silent := by
  have hlists : ∀ name ∈ Schema.silent, name ∉ listKeywords := by decide
  cases h with
  | const hconst => exact absurd (hconst ▸ hname) (by decide)
  | list hlist => exact absurd hlist (hlists _ hname)
  | table _ hkey | schema _ _ hkey => exact hkey ▸ hname

theorem Rewrites.asserted (h : Rewrites P A m m') (hname : m.1 ∈ assertions)
    (hvalue : m.2.isObject = false) : m' = m ∨ m.1 = "const" ∧ m' = ("enum", .arr [m.2]) := by
  have hnames : ∀ name ∈ assertions, name ∉ "patternProperties" :: tableKeywords ∧
      name ∉ listKeywords := by decide
  by_cases hconst : m.1 = "const"
  · cases h with
    | const _ hm => exact .inr ⟨hconst, hm⟩
    | table htable => exact absurd htable (hnames _ hname).1
    | list hlist => exact absurd hlist (hnames _ hname).2
    | schema _ _ hkey hv => exact .inl (Prod.ext hkey ((visit_other hvalue).mp hv))
  · obtain ⟨hkey, hv⟩ :=
      h.plain hconst (hnames _ hname).1 fun hlist => absurd hlist (hnames _ hname).2
    exact .inl (Prod.ext hkey ((visit_other hvalue).mp hv))

theorem Rewrites.reference (h : Rewrites P A m m') (hname : m.1 = "$ref")
    (hvalue : m.2.isObject = false) : m' = m := by
  obtain ⟨hkey, hv⟩ := h.plain (hname ▸ by decide) (hname ▸ by decide)
    fun hlist => absurd (hname ▸ hlist) (by decide)
  exact Prod.ext hkey ((visit_other hvalue).mp hv)

theorem Rewrites.child (h : Rewrites P A m m') (hname : m.1 ∈ ["additionalProperties", "items"]) :
    m'.1 = m.1 ∧ visit P A m.2 = .ok m'.2 := by
  have hnames : ∀ name ∈ ["additionalProperties", "items"], name ≠ "const" ∧
      name ∉ "patternProperties" :: tableKeywords ∧ name ∉ listKeywords := by decide
  obtain ⟨hconst, htable, hlist⟩ := hnames _ hname
  exact h.plain hconst htable fun hname => absurd hname hlist

theorem visitTable_other {v v' : Doc} (hv : v.isObject = false) :
    visitTable P A v = .ok v' ↔ v' = v := by
  cases v with
  | obj ms => cases hv
  | null | bool | num | str | arr =>
    rw [visitTable, Except.ok.injEq, eq_comm]
    intro ms h
    cases h

theorem Rewrites.entries (h : Rewrites P A m m') (hname : m.1 ∈ tableKeywords) :
    m'.1 = m.1 ∧ visitTable P A m.2 = .ok m'.2 := by
  have hlists : ∀ name ∈ tableKeywords, name ∉ listKeywords := by decide
  cases h with
  | const hconst => exact absurd (hconst ▸ hname) (by decide)
  | table _ hkey hv => exact ⟨hkey, hv⟩
  | list hlist => exact absurd hlist (hlists _ hname)
  | schema htable _ hkey hv =>
    have hvalue := htable hname
    exact ⟨hkey, (visitTable_other hvalue).mpr ((visit_other hvalue).mp hv)⟩

theorem Rewrites.alternatives (h : Rewrites P A m m') (hname : m.1 ∈ listKeywords)
    (hvalue : m.2.isArray = true) : m'.1 = (if m.1 = "oneOf" then "anyOf" else m.1) ∧
      visitList P A m.2 = .ok m'.2 := by
  have htables : ∀ name ∈ listKeywords, name ∉ "patternProperties" :: tableKeywords := by decide
  cases h with
  | const hconst => exact absurd (hconst ▸ hname) (by decide)
  | table htable => exact absurd htable (htables _ hname)
  | list _ _ hkey hv => exact ⟨hkey, hv⟩
  | schema _ hlist => exact absurd hvalue (Bool.eq_false_iff.mp (hlist hname))

/-- A keyword is written of itself, but for the one value there is and the alternatives. -/
theorem Rewrites.source (h : Rewrites P A m m') (hname : m'.1 ∉ ["enum", "anyOf"]) :
    m.1 = m'.1 := by
  cases h with
  | const hconst hm =>
    subst hm
    exact absurd (show "enum" ∉ ["enum", "anyOf"] from hname) (by decide)
  | table _ hkey | schema _ _ hkey => exact hkey.symm
  | list _ _ hkey =>
    rw [hkey] at hname ⊢
    split_ifs at hname ⊢
    · exact absurd hname (by decide)
    · rfl

/-- A list of schemas is written of one, and is no list of alternatives of one. -/
theorem Rewrites.listed (h : Rewrites P A m m') (hname : m'.1 ∈ listKeywords)
    (hvalue : m'.2.isArray = true) : m'.1 ≠ "oneOf" ∧ m.2.isArray = true ∧
      visitList P A m.2 = .ok m'.2 := by
  cases h with
  | const hconst hm =>
    subst hm
    exact absurd (show "enum" ∈ listKeywords from hname) (by decide)
  | table htable hkey =>
    have htables : ∀ name ∈ "patternProperties" :: tableKeywords, name ∉ listKeywords := by decide
    exact absurd (hkey ▸ hname) (htables _ htable)
  | list hlist hvalue hkey hv =>
    refine ⟨?_, hvalue, hv⟩
    rw [hkey]
    split_ifs with hone
    · decide
    · exact hone
  | schema _ hlist hkey hv =>
    have hobject : m'.2.isObject = false := by
      cases hm : m'.2 <;> rw [hm] at hvalue <;> first | rfl | cases hvalue
    have hsame := eq_of_visit hv hobject
    rw [hkey] at hname
    exact absurd (hsame ▸ hvalue) (Bool.eq_false_iff.mp (hlist hname))

end Rules

/-! ## The two adapters -/

theorem map_some_eq_ok {r : Except ProviderErrorCode Doc} {key : String} {m' : String × Doc}
    (h : (r.map fun v => some (key, v)) = .ok (some m')) : m'.1 = key ∧ r = .ok m'.2 := by
  obtain ⟨v, hv, h⟩ := map_eq_ok.mp h
  cases h
  exact ⟨rfl, hv⟩

theorem openai_rewrites {m m' : String × Doc} (h : Image P openai m m') :
    Rewrites P openai m m' := by
  unfold Image written at h
  rw [show openai.treatment = openaiTreatment from rfl, openaiTreatment] at h
  have hobj (hv : m.2.isObject = true) : m.2.isArray = false := by
    cases hm : m.2 <;> rw [hm] at hv <;> first | rfl | cases hv
  split_ifs at h with hunsupported hconstraint hskipped hconst htable hlist hnode
  · cases h
  · cases h
  · cases h
    exact .const hconst rfl
  · obtain ⟨hkey, hv⟩ := map_some_eq_ok h
    exact .table (List.mem_cons_of_mem _ htable.1) hkey hv
  · obtain ⟨hkey, hv⟩ := map_some_eq_ok h
    refine .list ?_ hlist.2 ?_ hv
    · exact (by decide : ["anyOf", "oneOf"] ⊆ listKeywords) hlist.1
    · rcases List.mem_cons.mp hlist.1 with hany | hone
      · rw [hkey, hany]
        rfl
      · rw [hkey, if_pos (List.mem_singleton.mp hone)]
  · obtain ⟨hkey, hv⟩ := map_some_eq_ok h
    exact .schema (fun hname => absurd ⟨hname, hnode⟩ htable) (fun _ => hobj hnode) hkey hv
  · cases h
    have hvalue := Bool.eq_false_iff.mpr hnode
    refine .schema (fun _ => hvalue) (fun hname => ?_) rfl ((visit_other hvalue).mpr rfl)
    by_contra harr
    have hlists : ∀ name ∈ listKeywords, name ∈ unsupported ∨ name ∈ ["anyOf", "oneOf"] := by decide
    exact (hlists _ hname).elim hunsupported fun hany =>
      hlist ⟨hany, by simpa using harr⟩

theorem anthropic_rewrites {m m' : String × Doc} (h : Image P anthropic m m') :
    Rewrites P anthropic m m' := by
  unfold Image written at h
  rw [show anthropic.treatment = anthropicTreatment from rfl, anthropicTreatment] at h
  have hobj (hv : m.2.isObject = true) : m.2.isArray = false := by
    cases hm : m.2 <;> rw [hm] at hv <;> first | rfl | cases hv
  split_ifs at h with hconstraint htable hlist hone hskipped hnode
  · cases h
  · obtain ⟨hkey, hv⟩ := map_some_eq_ok h
    refine .table ?_ hkey hv
    exact (by decide : ["properties", "$defs", "definitions", "patternProperties"] ⊆
      "patternProperties" :: tableKeywords) htable.1
  · obtain ⟨hkey, hv⟩ := map_some_eq_ok h
    exact .list hlist.1 hlist.2 (by rw [hkey, if_pos hone]) hv
  · obtain ⟨hkey, hv⟩ := map_some_eq_ok h
    exact .list hlist.1 hlist.2 (by rw [hkey, if_neg hone]) hv
  · cases h
  · obtain ⟨hkey, hv⟩ := map_some_eq_ok h
    refine .schema (fun hname => ?_) (fun _ => hobj hnode) hkey hv
    have htables : tableKeywords ⊆ ["properties", "$defs", "definitions", "patternProperties"] := by
      decide
    exact absurd ⟨htables hname, hnode⟩ htable
  · cases h
    have hvalue := Bool.eq_false_iff.mpr hnode
    refine .schema (fun _ => hvalue) (fun hname => ?_) rfl ((visit_other hvalue).mpr rfl)
    by_contra harr
    exact hlist ⟨hname, by simpa using harr⟩

theorem objectNode_iff {node : Members} :
    objectNode node = true ↔ held node "type" = .str "object" := by
  unfold objectNode
  split <;> simp_all

theorem requireAll_ok {result closed : Members} (h : requireAll result = .ok closed) :
    closed = result ∧ objectNode result = false ∨
      objectNode result = true ∧ ∃ properties, held result "properties" = .obj properties ∧
        closed = put (put (put result ("properties", .obj properties))
          ("required", .arr ((properties.map Prod.fst).map .str)))
          ("additionalProperties", .bool false) := by
  unfold requireAll at h
  split_ifs at h with hobject hclosed
  · split at h
    · rename_i properties hproperties
      cases h
      exact .inr ⟨hobject, properties, hproperties, rfl⟩
    · cases h
  · cases h
    exact .inl ⟨rfl, Bool.eq_false_iff.mpr hobject⟩

/-- Closing an object leaves what is looked up as it is. -/
theorem requireAll_looks {result closed : Members} (h : requireAll result = .ok closed)
    (hnodup : (result.map Prod.fst).Nodup) {name : String} (hname : name ∈ looked) :
    held closed name = held result name := by
  obtain ⟨rfl, -⟩ | ⟨-, properties, hproperties, rfl⟩ := requireAll_ok h
  · rfl
  · have hnames : ∀ name ∈ looked, name ≠ "required" ∧ name ≠ "additionalProperties" := by decide
    obtain ⟨hrequired, hadditional⟩ := hnames _ hname
    rw [held_put (nodup_put (nodup_put hnodup)), if_neg hadditional,
      held_put (nodup_put hnodup), if_neg hrequired, held_put hnodup]
    split_ifs with h
    · rw [h, hproperties]
    · rfl

theorem openai_lawful : Lawful P openai where
  rewrites h := openai_rewrites h
  writes {m} hm h := by
    have hnames : ∀ name ∈ looked, ¬ (name ∈ localConstraints ∨ name = "default") ∧
        name ≠ "discriminator" := by decide
    obtain ⟨hconstraint, hskipped⟩ := hnames _ hm
    unfold written at h
    rw [show openai.treatment = openaiTreatment from rfl, openaiTreatment, if_neg hconstraint,
      if_neg hskipped] at h
    split_ifs at h
    all_goals first
      | cases h
      | obtain ⟨_, _, h⟩ := map_eq_ok.mp h
        cases h
  nodup {result closed} h hnodup := by
    obtain ⟨rfl, -⟩ | ⟨-, properties, -, rfl⟩ := requireAll_ok h
    · exact hnodup
    · exact nodup_put (nodup_put (nodup_put hnodup))
  looks h hnodup _ hname := requireAll_looks h hnodup hname
  closes {result closed} h hnodup m hm := by
    have hproperties := requireAll_looks h hnodup (by decide : "properties" ∈ looked)
    have htype := requireAll_looks h hnodup (by decide : "type" ∈ looked)
    obtain ⟨rfl, -⟩ | ⟨hobject, properties, hheld', hclosed⟩ := requireAll_ok h
    · exact .inl hm
    · have hobject : objectNode closed = true :=
        objectNode_iff.mpr (htype.trans (objectNode_iff.mp hobject))
      have hheld : held closed "properties" = .obj properties := hproperties.trans hheld'
      rw [hclosed, mem_put, mem_put, mem_put] at hm
      rcases hm with rfl | ⟨rfl | ⟨rfl | ⟨hm, -⟩, -⟩, -⟩
      · exact .inr ⟨hobject, .inl rfl⟩
      · refine .inr ⟨hobject, .inr (.inr ?_)⟩
        rw [declared, hheld]
        rfl
      · by_cases hmem : ∃ v, ("properties", v) ∈ result
        · obtain ⟨v, hmem⟩ := hmem
          rw [held_of_mem hnodup hmem] at hheld'
          exact .inl (hheld' ▸ hmem)
        · rw [held_of_not_mem hnodup fun v hv => hmem ⟨v, hv⟩] at hheld'
          exact .inr ⟨hobject, .inr (.inl (by rw [hheld']))⟩
      · exact .inl hm

theorem closeObject_ok {result closed : Members} (h : closeObject result = .ok closed) :
    closed = result ∧ objectNode result = false ∨ objectNode result = true ∧
      closed = put result ("additionalProperties", .bool false) := by
  unfold closeObject at h
  split_ifs at h with hobject
  · cases h
    exact .inr ⟨hobject, rfl⟩
  · cases h
    exact .inl ⟨rfl, Bool.eq_false_iff.mpr hobject⟩

theorem closeObject_looks {result closed : Members} (h : closeObject result = .ok closed)
    (hnodup : (result.map Prod.fst).Nodup) {name : String} (hname : name ∈ looked) :
    held closed name = held result name := by
  obtain ⟨rfl, -⟩ | ⟨-, rfl⟩ := closeObject_ok h
  · rfl
  · have hnames : ∀ name ∈ looked, name ≠ "additionalProperties" := by decide
    rw [held_put hnodup, if_neg (hnames _ hname)]

theorem anthropic_lawful : Lawful P anthropic where
  rewrites h := anthropic_rewrites h
  writes {m} hm h := by
    have hnames : ∀ name ∈ looked, name ∉ constraints ∧ name ≠ "minItems" ∧
        name ≠ "discriminator" := by decide
    obtain ⟨hconstraint, hminItems, hskipped⟩ := hnames _ hm
    unfold written at h
    rw [show anthropic.treatment = anthropicTreatment from rfl, anthropicTreatment,
      if_neg (fun h => h.elim hconstraint fun h => hminItems h.1), if_neg hskipped] at h
    split_ifs at h
    all_goals first
      | cases h
      | obtain ⟨_, _, h⟩ := map_eq_ok.mp h
        cases h
  nodup {result closed} h hnodup := by
    obtain ⟨rfl, -⟩ | ⟨-, rfl⟩ := closeObject_ok h
    · exact hnodup
    · exact nodup_put hnodup
  looks h hnodup _ hname := closeObject_looks h hnodup hname
  closes {result closed} h hnodup m hm := by
    have htype := closeObject_looks h hnodup (by decide : "type" ∈ looked)
    obtain ⟨rfl, -⟩ | ⟨hobject, hclosed⟩ := closeObject_ok h
    · exact .inl hm
    · rw [hclosed, mem_put] at hm
      rcases hm with rfl | ⟨hm, -⟩
      · exact .inr ⟨objectNode_iff.mpr (htype.trans (objectNode_iff.mp hobject)), .inl rfl⟩
      · exact .inl hm

end SchemaAdapter

end Orqalis
