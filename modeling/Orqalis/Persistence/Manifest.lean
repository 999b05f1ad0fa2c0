import Mathlib.Logic.Function.Basic
import Mathlib.Logic.Relation
import Orqalis.Lib.Json
import Orqalis.Lib.Outcome
import Orqalis.Lib.System
import Orqalis.Persistence.Store

/-!
# The writers of the manifest

Three operations write the manifest, each under a lock of its own: a bootstrap writes one where
there is none, a migration replaces one of the schema before, an update of the graph's cursor
replaces one of the current schema. Any number of threads run them, step by step, and may stop
anywhere.

The locks differ, so nothing keeps two of the operations apart but the manifest itself: what one
of them found there disables the writes of the others until it has written
(`manifest_writers`). Every write replaces exactly the content it was made from.

The reading of identifiers, of times and of numbers with a fraction is an argument.
-/

namespace Orqalis

open Lib

namespace ManifestStore

/-! ## Documents -/

/-- An object, by its members. -/
abbrev Members := List (List Char × Json)

/-- The value of a member. -/
def Members.get (m : Members) (key : String) : Option Json :=
  (m.find? fun x => x.1 = key.toList).map Prod.snd

/-- Set a member, in place or at the end. -/
def Members.set (m : Members) (key : String) (value : Json) : Members :=
  if m.any fun x => x.1 = key.toList then
    m.map fun x => if x.1 = key.toList then (x.1, value) else x
  else
    m ++ [(key.toList, value)]

/-- The keys of an object. -/
def Members.keys (m : Members) : List (List Char) := m.map Prod.fst

mutual

/-- Whether no object of a value has a key twice. -/
def unique : Json → Bool
  | .obj members => (Members.keys members).Nodup ∧ uniqueMembers members
  | .arr items => uniqueItems items
  | _ => true

/-- Whether no object of the members has a key twice. -/
def uniqueMembers : List (List Char × Json) → Bool
  | [] => true
  | (_, value) :: rest => unique value && uniqueMembers rest

/-- Whether no object of the items has a key twice. -/
def uniqueItems : List Json → Bool
  | [] => true
  | value :: rest => unique value && uniqueItems rest

end

/-- The order of the keys. -/
def precedes : List Char → List Char → Bool
  | [], _ => true
  | _ :: _, [] => false
  | a :: s, b :: t => a.toNat < b.toNat || (a.toNat = b.toNat && precedes s t)

mutual

/-- A value with the keys of its objects in their order. -/
def sortKeys : Json → Json
  | .obj members => .obj ((sortMembers members).mergeSort fun x y => precedes x.1 y.1)
  | .arr items => .arr (sortItems items)
  | value => value

/-- The members, each with its keys in order. -/
def sortMembers : List (List Char × Json) → List (List Char × Json)
  | [] => []
  | (key, value) :: rest => (key, sortKeys value) :: sortMembers rest

/-- The items, each with its keys in order. -/
def sortItems : List Json → List Json
  | [] => []
  | value :: rest => sortKeys value :: sortItems rest

end

/-- An object with its keys in order. -/
def Members.sorted (m : Members) : Members :=
  (sortMembers m).mergeSort fun x y => precedes x.1 y.1

/-- Read a file that holds one object. -/
def readJsonObject (text : List Char) : Option Members :=
  (Json.loads text).bind fun value =>
    match value with
    | .obj members => if unique (.obj members) then some members else none
    | _ => none

/-- The text of an object, read back before it is written. -/
def encodedJson (members : Members) : Option (List Char) :=
  let encoded := Json.dumps 0 (.obj members.sorted) ++ ['\n']
  if (readJsonObject encoded).isSome then some encoded else none

/-- What a text of an object is read as. -/
theorem readJsonObject_dumps (members : Members) :
    readJsonObject (Json.dumps 0 (.obj members) ++ ['\n']) =
      if unique (.obj members) then some members else none := by
  have hskip : Json.skip (Json.dumps 0 (.obj members) ++ ['\n']) =
      Json.dumps 0 (.obj members) ++ ['\n'] := Json.skip_dumps 0 _ _
  have hends : Json.Ends ['\n'] := by
    intro c s hcs
    cases hcs
    rfl
  have hvalue := Json.readValue_dumps (.obj members) 0
    ((Json.dumps 0 (.obj members) ++ ['\n']).length + 1) ['\n']
    (by rw [List.length_append]; omega) hends
  have hloads : Json.loads (Json.dumps 0 (.obj members) ++ ['\n']) = some (.obj members) := by
    unfold Json.loads
    rw [hskip, hvalue]
    rfl
  unfold readJsonObject
  rw [hloads, Option.bind_some]

/-- What is encoded is read back, in order. -/
theorem readJsonObject_encodedJson {members : Members} {text : List Char}
    (h : encodedJson members = some text) :
    readJsonObject text = some members.sorted ∧ unique (.obj members.sorted) = true := by
  unfold encodedJson at h
  dsimp only at h
  rw [readJsonObject_dumps] at h
  by_cases hunique : unique (.obj members.sorted) = true
  · rw [if_pos hunique, Option.isSome_some, if_pos rfl] at h
    obtain rfl := Option.some.inj h
    rw [readJsonObject_dumps, if_pos hunique]
    exact ⟨rfl, hunique⟩
  · rw [if_neg hunique] at h
    cases h

/-! ### What sorting leaves alone -/

theorem mem_sortMembers {members : List (List Char × Json)} {x : List Char × Json} :
    x ∈ sortMembers members ↔ ∃ value, (x.1, value) ∈ members ∧ sortKeys value = x.2 := by
  induction members with
  | nil => simp [sortMembers]
  | cons y rest ih =>
    obtain ⟨key, value⟩ := y
    rw [sortMembers, List.mem_cons, ih]
    constructor
    · rintro (rfl | ⟨v, hv, hx⟩)
      · exact ⟨value, List.mem_cons_self, rfl⟩
      · exact ⟨v, List.mem_cons_of_mem _ hv, hx⟩
    · rintro ⟨v, hv, hx⟩
      rcases List.mem_cons.mp hv with heq | hv
      · obtain ⟨hkey, rfl⟩ := Prod.mk.inj heq
        exact Or.inl (Prod.ext hkey hx.symm)
      · exact Or.inr ⟨v, hv, hx⟩

theorem keys_sortMembers (members : List (List Char × Json)) :
    Members.keys (sortMembers members) = Members.keys members := by
  induction members with
  | nil => rfl
  | cons y rest ih => exact congrArg (y.1 :: ·) ih

theorem Members.mem_sorted {m : Members} {x : List Char × Json} :
    x ∈ m.sorted ↔ ∃ value, (x.1, value) ∈ m ∧ sortKeys value = x.2 := by
  unfold Members.sorted
  rw [List.mem_mergeSort]
  exact mem_sortMembers

theorem Members.nodup_keys_sorted {m : Members} : m.sorted.keys.Nodup ↔ m.keys.Nodup := by
  have hperm : (m.sorted.keys).Perm (Members.keys (sortMembers m)) :=
    (List.mergeSort_perm _ _).map Prod.fst
  rw [hperm.nodup_iff, keys_sortMembers]

theorem Members.get_eq_some {m : Members} (hm : m.keys.Nodup) {key : String} {value : Json} :
    m.get key = some value ↔ (key.toList, value) ∈ m := by
  unfold Members.get
  constructor
  · intro h
    obtain ⟨x, hx, rfl⟩ := Option.map_eq_some_iff.mp h
    have hkey : x.1 = key.toList := by simpa using List.find?_some hx
    rw [← hkey]
    exact List.mem_of_find?_eq_some hx
  · intro h
    have hsome : (m.find? fun x => x.1 = key.toList).isSome := by
      rw [List.find?_isSome]
      exact ⟨_, h, by simp⟩
    obtain ⟨x, hx⟩ := Option.isSome_iff_exists.mp hsome
    have hkey : x.1 = key.toList := by simpa using List.find?_some hx
    have heq : x = (key.toList, value) :=
      List.inj_on_of_nodup_map hm (List.mem_of_find?_eq_some hx) h hkey
    rw [hx, heq]
    rfl

/-- A member of a sorted object. -/
theorem Members.get_sorted {m : Members} (hm : m.keys.Nodup) (key : String) :
    m.sorted.get key = (m.get key).map sortKeys := by
  apply Option.ext
  intro value
  rw [Members.get_eq_some (Members.nodup_keys_sorted.mpr hm), Members.mem_sorted,
    Option.map_eq_some_iff]
  constructor
  · rintro ⟨v, hv, hx⟩
    exact ⟨v, (Members.get_eq_some hm).mpr hv, hx⟩
  · rintro ⟨v, hv, hx⟩
    exact ⟨v, (Members.get_eq_some hm).mp hv, hx⟩

theorem uniqueMembers_eq_true {members : List (List Char × Json)} :
    uniqueMembers members = true ↔ ∀ x ∈ members, unique x.2 = true := by
  induction members with
  | nil => simp [uniqueMembers]
  | cons y rest ih =>
    unfold uniqueMembers
    rw [Bool.and_eq_true, ih, List.forall_mem_cons]

theorem unique_obj {m : Members} :
    unique (.obj m) = true ↔ m.keys.Nodup ∧ ∀ x ∈ m, unique x.2 = true := by
  rw [unique, decide_eq_true_iff, uniqueMembers_eq_true]

/-- An object of an object without double keys has none. -/
theorem unique_member {m p : Members} (hm : unique (.obj m) = true) {key : String}
    (h : m.get key = some (.obj p)) : p.keys.Nodup := by
  obtain ⟨hnodup, hall⟩ := unique_obj.mp hm
  exact (unique_obj.mp (hall _ ((Members.get_eq_some hnodup).mp h))).1

mutual

/-- Sorting makes no key double. -/
theorem unique_sortKeys : ∀ value : Json, unique value = true → unique (sortKeys value) = true
  | .obj members, h => by
    have hsorted : sortKeys (.obj members) = .obj (Members.sorted members) := by
      simp [sortKeys, Members.sorted]
    obtain ⟨hnodup, hall⟩ := unique_obj.mp h
    have hmembers := uniqueMembers_sortMembers members (uniqueMembers_eq_true.mpr hall)
    rw [hsorted, unique_obj]
    refine ⟨Members.nodup_keys_sorted.mpr hnodup, fun x hx => ?_⟩
    exact uniqueMembers_eq_true.mp hmembers x ((List.mem_mergeSort).mp hx)
  | .arr items, h => by
    unfold unique at h
    simp only [sortKeys, unique]
    exact uniqueItems_sortItems items h
  | .null, _ => by simp [sortKeys, unique]
  | .bool _, _ => by simp [sortKeys, unique]
  | .num _, _ => by simp [sortKeys, unique]
  | .str _, _ => by simp [sortKeys, unique]

theorem uniqueMembers_sortMembers : ∀ members : List (List Char × Json),
    uniqueMembers members = true → uniqueMembers (sortMembers members) = true
  | [], _ => rfl
  | (key, value) :: rest, h => by
    obtain ⟨hvalue, hrest⟩ := Bool.and_eq_true_iff.mp h
    exact Bool.and_eq_true_iff.mpr
      ⟨unique_sortKeys value hvalue, uniqueMembers_sortMembers rest hrest⟩

theorem uniqueItems_sortItems : ∀ items : List Json,
    uniqueItems items = true → uniqueItems (sortItems items) = true
  | [], _ => rfl
  | value :: rest, h => by
    obtain ⟨hvalue, hrest⟩ := Bool.and_eq_true_iff.mp h
    exact Bool.and_eq_true_iff.mpr
      ⟨unique_sortKeys value hvalue, uniqueItems_sortItems rest hrest⟩

end

/-- An object without double keys can be encoded. -/
theorem encodedJson_of_unique {m : Members} (h : unique (.obj m) = true) :
    ∃ content, encodedJson m = some content := by
  have hsorted : unique (.obj m.sorted) = true := by
    have := unique_sortKeys _ h
    simpa [sortKeys, Members.sorted] using this
  refine ⟨Json.dumps 0 (.obj m.sorted) ++ ['\n'], ?_⟩
  unfold encodedJson
  dsimp only
  rw [readJsonObject_dumps, if_pos hsorted, Option.isSome_some, if_pos rfl]

theorem unique_keys {m : Members} (hm : unique (.obj m) = true) : m.keys.Nodup :=
  (unique_obj.mp hm).1

/-! ## Validation -/

/-- Why a manifest is refused. -/
inductive Refusal where
  | notFound (message : String)
  | validation (message : String)
  | migrationRequired (message : String)
  | unsupported (message : String)
  | unhashable
deriving DecidableEq

/-- What reads a text as an identifier, a text as a time (with whether it has a timezone), and
compares a number with a fraction or an exponent with an integer. -/
structure Readers where
  uuid : List Char → Bool
  fromisoformat : List Char → Option Bool
  floats : List Char → Int → Bool

/-- The natural number some digits spell. -/
def natOf (s : List Char) : Nat := s.foldl (fun n c => 10 * n + (c.toNat - 48)) 0

/-- The integer a number spells. -/
def intOf (s : List Char) : Option Int :=
  if s.head? = some '-' then
    if s.tail.all Char.isDigit then some (-(natOf s.tail : Int)) else none
  else if s.all Char.isDigit then some (natOf s)
  else none

/-- The text a value is. -/
def text : Option Json → Option (List Char)
  | some (.str s) => some s
  | _ => none

/-- The integer a value is. A truth value is none. -/
def integer : Option Json → Option Int
  | some (.num n) => intOf n.spelling
  | _ => none

/-- Whether a value is missing or null. -/
def absent : Option Json → Bool
  | none => true
  | some .null => true
  | _ => false

/-- Whether a value equals an integer: a truth value does, and a number with a fraction. -/
def equals (r : Readers) (value : Option Json) (n : Int) : Bool :=
  match value with
  | some (.bool b) => (if b then 1 else 0) = n
  | some (.num x) => (intOf x.spelling).elim (r.floats x.spelling n) fun i => i = n
  | _ => false

/-- Whether a value has a hash. -/
def hashable : Option Json → Bool
  | some (.arr _) => false
  | some (.obj _) => false
  | _ => true

/-- The object a value is. -/
def mapping (value : Option Json) (label : String) : Except Refusal Members :=
  match value with
  | some (.obj members) => .ok members
  | _ => .error (.validation s!"Manifest {label} must be an object")

/-- A version is a positive integer. -/
def positiveVersion (value : Option Json) (label : String) : Except Refusal Unit :=
  if (integer value).elim false fun n => 1 ≤ n then .ok ()
  else .error (.validation s!"Manifest {label} must be a positive integer")

/-- What both schemas say of the project and of its beginning. -/
def validateCommon (r : Readers) (document : Members) : Except Refusal Unit := do
  let project ← mapping (document.get "project") "project"
  if (text (project.get "id")).elim true fun id => ¬ r.uuid id then
    .error (.validation "Manifest project.id must be a UUID")
  else if (text (project.get "name")).elim true fun name => Orqalis.strip name = [] then
    .error (.validation "Manifest project.name must not be empty")
  else if (text (document.get "initialized_at")).elim true fun time =>
      r.fromisoformat time = none then
    .error (.validation "Manifest initialized_at must be a timestamp")
  else if (text (document.get "initialized_at")).elim true fun time =>
      r.fromisoformat time = some false then
    .error (.validation "Manifest initialized_at must include a timezone")
  else .ok ()

/-- A field of the cursor is a text or null. -/
def validateCursorField (graph : Members) (field : String) : Except Refusal Unit :=
  if absent (graph.get field) ∨ text (graph.get field) ≠ none then .ok ()
  else .error (.validation s!"Manifest graph.{field} must be text or null")

/-- What the sections of the current schema say. -/
def validateSections (document : Members) : Except Refusal Unit := do
  let storage ← mapping (document.get "storage") "storage"
  if text (storage.get "backend") ≠ some "filesystem".toList then
    .error (.validation "Manifest storage backend must be filesystem")
  else do
    let graph ← mapping (document.get "graph") "graph"
    let memory ← mapping (document.get "memory") "memory"
    let tasks ← mapping (document.get "tasks") "tasks"
    positiveVersion (graph.get "schema_version") "graph.schema_version"
    positiveVersion (memory.get "schema_version") "memory.schema_version"
    positiveVersion (tasks.get "schema_version") "tasks.schema_version"
    validateCursorField graph "indexed_commit"
    validateCursorField graph "indexed_branch"

/-- A manifest of the current schema. -/
def validateManifest (r : Readers) (document : Members) : Except Refusal Unit :=
  (integer (document.get "schema_version")).elim
    (.error (.validation "Manifest schema_version must be an integer"))
    fun version =>
      if version = 1 then
        .error (.migrationRequired "Project store schema 1 requires migration to schema 2")
      else if version ≠ 2 then
        .error (.unsupported s!"Unsupported project store schema: {version}")
      else do
        validateCommon r document
        validateSections document

/-- Read the manifest, of the current schema. -/
def loadManifest (r : Readers) (file : Option (List Char)) : Except Refusal Members :=
  match file with
  | none => .error (.notFound "Project is not initialized; run orqalis init")
  | some content =>
    match readJsonObject content with
    | none => .error (.validation "Project manifest is not valid JSON/YAML")
    | some document => do
      validateManifest r document
      return document

/-- A manifest of the schema before. -/
def validateV1 (r : Readers) (document : Members) : Except Refusal Unit :=
  if equals r (document.get "schema_version") 1 = false then
    .error (.validation "Expected project store schema 1")
  else do
    validateCommon r document
    if absent (document.get "storage") then .ok ()
    else do
      let storage ← mapping (document.get "storage") "storage"
      if hashable (storage.get "backend") = false then .error .unhashable
      else if absent (storage.get "backend") ∨
          text (storage.get "backend") = some "filesystem".toList then .ok ()
      else .error (.validation "Schema 1 manifest is not a filesystem project store")

/-! ### Validation does not see the order -/

@[simp] theorem text_sorted (value : Option Json) : text (value.map sortKeys) = text value := by
  cases value with
  | none => rfl
  | some v => cases v <;> simp [text, sortKeys]

@[simp] theorem integer_sorted (value : Option Json) :
    integer (value.map sortKeys) = integer value := by
  cases value with
  | none => rfl
  | some v => cases v <;> simp [integer, sortKeys]

@[simp] theorem absent_sorted (value : Option Json) :
    absent (value.map sortKeys) = absent value := by
  cases value with
  | none => rfl
  | some v => cases v <;> simp [absent, sortKeys]

theorem mapping_sorted (value : Option Json) (label : String) :
    mapping (value.map sortKeys) label = (mapping value label).map Members.sorted := by
  cases value with
  | none => rfl
  | some v => cases v <;> simp [mapping, sortKeys, Members.sorted, Except.map]

@[simp] theorem positiveVersion_sorted (value : Option Json) (label : String) :
    positiveVersion (value.map sortKeys) label = positiveVersion value label := by
  unfold positiveVersion
  rw [integer_sorted]

theorem get_of_mapping {value : Option Json} {label : String} {p : Members}
    (h : mapping value label = .ok p) : value = some (.obj p) := by
  unfold mapping at h
  split at h
  · obtain rfl := Except.ok.inj h
    rfl
  · cases h

/-- A section of a document goes on in order. -/
theorem section_sorted {m : Members} (hm : m.keys.Nodup)
    (hp : ∀ (key : String) (p : Members), m.get key = some (.obj p) → p.keys.Nodup)
    (key label : String) {f g : Members → Except Refusal Unit}
    (hf : ∀ p : Members, p.keys.Nodup → f p.sorted = g p) :
    (mapping (m.sorted.get key) label >>= f) = (mapping (m.get key) label >>= g) := by
  rw [Members.get_sorted hm, mapping_sorted]
  cases hmap : mapping (m.get key) label with
  | error e => rfl
  | ok p => exact hf p (hp key p (get_of_mapping hmap))

theorem validateCursorField_sorted {graph : Members} (h : graph.keys.Nodup) (field : String) :
    validateCursorField graph.sorted field = validateCursorField graph field := by
  unfold validateCursorField
  rw [Members.get_sorted h, absent_sorted, text_sorted]

section Sorted

variable {m : Members} (hm : m.keys.Nodup)
  (hp : ∀ (key : String) (p : Members), m.get key = some (.obj p) → p.keys.Nodup)

include hm hp

theorem validateCommon_sorted (r : Readers) :
    validateCommon r m.sorted = validateCommon r m := by
  unfold validateCommon
  rw [Members.get_sorted hm "initialized_at", text_sorted]
  refine section_sorted hm hp "project" "project" fun p hnodup => ?_
  rw [Members.get_sorted hnodup, Members.get_sorted hnodup, text_sorted, text_sorted]

theorem validateSections_sorted : validateSections m.sorted = validateSections m := by
  unfold validateSections
  refine section_sorted hm hp "storage" "storage" fun storage hstorage => ?_
  rw [Members.get_sorted hstorage, text_sorted]
  split_ifs with hbackend
  · rfl
  refine section_sorted hm hp "graph" "graph" fun graph hgraph => ?_
  rw [Members.get_sorted hgraph, positiveVersion_sorted, validateCursorField_sorted hgraph,
    validateCursorField_sorted hgraph]
  refine (section_sorted hm hp "memory" "memory" fun memory hmemory => ?_)
  rw [Members.get_sorted hmemory, positiveVersion_sorted]
  refine section_sorted hm hp "tasks" "tasks" fun tasks htasks => ?_
  rw [Members.get_sorted htasks, positiveVersion_sorted]

theorem validateManifest_sorted (r : Readers) :
    validateManifest r m.sorted = validateManifest r m := by
  unfold validateManifest
  rw [Members.get_sorted hm "schema_version", integer_sorted, validateCommon_sorted hm hp,
    validateSections_sorted hm hp]

end Sorted

/-- A manifest that is encoded is as valid as what it was made from. -/
theorem loadManifest_encodedJson {r : Readers} {document : Members} {content : List Char}
    (hvalid : validateManifest r document = .ok ())
    (h : encodedJson document = some content) :
    loadManifest r (some content) = .ok document.sorted := by
  obtain ⟨hread, hunique⟩ := readJsonObject_encodedJson h
  have hnodup := Members.nodup_keys_sorted.mp (unique_keys hunique)
  have hp : ∀ (key : String) (p : Members), document.get key = some (.obj p) →
      p.keys.Nodup := by
    intro key p hget
    have hsorted : document.sorted.get key = some (.obj p.sorted) := by
      rw [Members.get_sorted hnodup, hget]
      simp [sortKeys, Members.sorted]
    exact Members.nodup_keys_sorted.mp (unique_member hunique hsorted)
  unfold loadManifest
  dsimp only
  rw [hread]
  dsimp only
  rw [validateManifest_sorted hnodup hp, hvalid]
  rfl

/-- A manifest of the current schema is none of the schema before. -/
theorem equals_of_valid {r : Readers} {document : Members}
    (h : validateManifest r document = .ok ()) :
    equals r (document.get "schema_version") 1 = false := by
  unfold validateManifest at h
  cases hversion : integer (document.get "schema_version") with
  | none =>
    rw [hversion] at h
    cases h
  | some version =>
    rw [hversion, Option.elim_some] at h
    split_ifs at h with hone htwo
    unfold integer at hversion
    split at hversion
    · rename_i x hx
      rw [hx]
      unfold equals
      dsimp only
      rw [hversion, Option.elim_some]
      exact decide_eq_false hone
    · cases hversion

/-! ## The three operations -/

/-- A small integer. -/
def one : Json := .num ⟨['1'], rfl, rfl⟩

/-- The version of the current schema. -/
def currentSchemaVersion : Json := .num ⟨['2'], rfl, rfl⟩

/-- A text or null. -/
def textOrNull : Option (List Char) → Json
  | none => .null
  | some s => .str s

/-- A literal text. -/
def literal (s : String) : Json := .str s.toList

/-- What a bootstrap is given and what it finds of the repository. -/
structure Project where
  id : List Char
  name : List Char
  initializedAt : List Char
  commit : Option (List Char)
  branch : Option (List Char)

/-- The manifest of a new store. -/
def manifestDocument (project : Project) : Members :=
  [("schema_version".toList, currentSchemaVersion),
    ("project".toList, .obj [("id".toList, .str project.id), ("name".toList, .str project.name)]),
    ("storage".toList, .obj [("backend".toList, literal "filesystem")]),
    ("initialized_at".toList, .str project.initializedAt),
    ("graph".toList, .obj [("schema_version".toList, one),
      ("indexed_commit".toList, textOrNull project.commit),
      ("indexed_branch".toList, textOrNull project.branch)]),
    ("memory".toList, .obj [("schema_version".toList, one)]),
    ("tasks".toList, .obj [("schema_version".toList, one)])]

/-- What a member is, null where it is missing. -/
def getOrNull (m : Members) (key : String) : Json := (m.get key).getD .null

/-- The manifest a migration makes of one of the schema before. -/
def migrated (old : Members) : Members :=
  let graph : Members :=
    match old.get "graph" with
    | some (.obj graph) => graph
    | _ => []
  ((((old.set "schema_version" currentSchemaVersion).set
    "storage" (.obj [("backend".toList, literal "filesystem")])).set
    "graph" (.obj [("schema_version".toList, one),
      ("indexed_commit".toList, getOrNull graph "indexed_commit"),
      ("indexed_branch".toList, getOrNull graph "indexed_branch")])).set
    "memory" (.obj [("schema_version".toList, one)])).set
    "tasks" (.obj [("schema_version".toList, one)])

/-- The manifest with another cursor. -/
def withCursor (manifest graph : Members) (commit branch : Option (List Char)) : Members :=
  manifest.set "graph" (.obj ((graph.set "indexed_commit" (textOrNull commit)).set
    "indexed_branch" (textOrNull branch)))

/-- The locks: of a bootstrap, of a migration, and of an update of the cursor. -/
inductive LockName where
  | bootstrap
  | migration
  | manifest
deriving DecidableEq

/-- Where a thread is. An operation on the schema that is part of a bootstrap says so. -/
inductive Phase where
  | idle
  | bootstrapWaits (project : Project)
  | bootstrapChecks (project : Project)
  | bootstrapWrites (document : Members)
  | bootstrapFinishes
  | ensureLoads (within : Bool)
  | migrationWaits (within : Bool)
  | migrationReads (within : Bool)
  | migrationCopies (within : Bool) (old : Members)
  | migrationSaves (within : Bool) (old : Members) (raw : List Char)
  | migrationBuilds (within : Bool) (old : Members)
  | migrationWrites (within : Bool) (document : Members)
  | migrationChecks (within : Bool)
  | cursorWaits (commit branch : Option (List Char))
  | cursorReads (commit branch : Option (List Char))
  | cursorWrites (document : Members)

/-- Where a thread goes on after an operation on the schema. -/
def Phase.after (within : Bool) : Phase := if within then .bootstrapFinishes else .idle

/-- The locks a thread holds. -/
def Phase.holds : Phase → LockName → Bool
  | .bootstrapChecks _, .bootstrap => true
  | .bootstrapWrites _, .bootstrap => true
  | .bootstrapFinishes, .bootstrap => true
  | .ensureLoads within, .bootstrap => within
  | .migrationWaits within, .bootstrap => within
  | .migrationReads within, .bootstrap => within
  | .migrationCopies within _, .bootstrap => within
  | .migrationSaves within _ _, .bootstrap => within
  | .migrationBuilds within _, .bootstrap => within
  | .migrationWrites within _, .bootstrap => within
  | .migrationChecks within, .bootstrap => within
  | .migrationReads _, .migration => true
  | .migrationCopies _ _, .migration => true
  | .migrationSaves _ _ _, .migration => true
  | .migrationBuilds _ _, .migration => true
  | .migrationWrites _ _, .migration => true
  | .migrationChecks _, .migration => true
  | .cursorReads _ _, .manifest => true
  | .cursorWrites _, .manifest => true
  | _, _ => false

variable {θ : Type*} [DecidableEq θ]

/-- The manifest, the backups and the threads. -/
structure World (θ : Type*) where
  manifest : Option (List Char)
  backups : String → Option (List Char)
  threads : θ → Phase

/-- A thread goes on. -/
def World.goes (w : World θ) (t : θ) (phase : Phase) : World θ :=
  { w with threads := Function.update w.threads t phase }

/-- The manifest is replaced. -/
def World.publish (w : World θ) (content : List Char) : World θ :=
  { w with manifest := some content }

/-- A backup is written. -/
def World.save (w : World θ) (name : String) (raw : List Char) : World θ :=
  { w with backups := Function.update w.backups name (some raw) }

/-- Nobody holds a lock. -/
def World.free (w : World θ) (lock : LockName) : Prop :=
  ∀ u, (w.threads u).holds lock = false

/-- What one thread does at a time. -/
inductive Step (r : Readers) : World θ → World θ → Prop
  /-- A thread stops: it is killed, or its operation fails. -/
  | stop {w : World θ} (t : θ) : Step r w (w.goes t .idle)
  /-- `bootstrap_project_store` -/
  | bootstrap {w : World θ} {t : θ} (project : Project) (h : w.threads t = .idle) :
    Step r w (w.goes t (.bootstrapWaits project))
  | bootstrapEnters {w : World θ} {t : θ} {project : Project}
    (h : w.threads t = .bootstrapWaits project) (hfree : w.free .bootstrap) :
    Step r w (w.goes t (.bootstrapChecks project))
  | bootstrapFinds {w : World θ} {t : θ} {project : Project}
    (h : w.threads t = .bootstrapChecks project) (hfound : w.manifest.isSome = true) :
    Step r w (w.goes t (.ensureLoads true))
  | bootstrapPrepares {w : World θ} {t : θ} {project : Project}
    (h : w.threads t = .bootstrapChecks project) (hnone : w.manifest = none)
    (hname : Orqalis.strip project.name ≠ [])
    (hvalid : validateManifest r (manifestDocument project) = .ok ()) :
    Step r w (w.goes t (.bootstrapWrites (manifestDocument project)))
  | bootstrapWrites {w : World θ} {t : θ} {document : Members} {content : List Char}
    (h : w.threads t = .bootstrapWrites document) (hcontent : encodedJson document = some content) :
    Step r w ((w.publish content).goes t .bootstrapFinishes)
  | bootstrapFinishes {w : World θ} {t : θ} (h : w.threads t = .bootstrapFinishes) :
    Step r w (w.goes t .idle)
  /-- `ensure_current_schema` -/
  | ensure {w : World θ} {t : θ} (h : w.threads t = .idle) :
    Step r w (w.goes t (.ensureLoads false))
  | ensureLoads {w : World θ} {t : θ} {within : Bool} {document : Members}
    (h : w.threads t = .ensureLoads within) (hload : loadManifest r w.manifest = .ok document) :
    Step r w (w.goes t (.after within))
  | ensureMigrates {w : World θ} {t : θ} {within : Bool} {message : String}
    (h : w.threads t = .ensureLoads within)
    (hload : loadManifest r w.manifest = .error (.migrationRequired message)) :
    Step r w (w.goes t (.migrationWaits within))
  /-- `migrate_manifest` -/
  | migrationEnters {w : World θ} {t : θ} {within : Bool}
    (h : w.threads t = .migrationWaits within) (hfile : w.manifest.isSome = true)
    (hfree : w.free .migration) :
    Step r w (w.goes t (.migrationReads within))
  | migrationFindsCurrent {w : World θ} {t : θ} {within : Bool} {content : List Char}
    {old : Members} (h : w.threads t = .migrationReads within)
    (hfile : w.manifest = some content) (hread : readJsonObject content = some old)
    (hversion : equals r (old.get "schema_version") 2 = true)
    (hvalid : validateManifest r old = .ok ()) :
    Step r w (w.goes t (.after within))
  | migrationFindsOld {w : World θ} {t : θ} {within : Bool} {content : List Char}
    {old : Members} (h : w.threads t = .migrationReads within)
    (hfile : w.manifest = some content) (hread : readJsonObject content = some old)
    (hother : equals r (old.get "schema_version") 2 = false)
    (hversion : equals r (old.get "schema_version") 1 = true)
    (hvalid : validateV1 r old = .ok ()) :
    Step r w (w.goes t (.migrationCopies within old))
  | migrationCopies {w : World θ} {t : θ} {within : Bool} {old : Members} {raw : List Char}
    (h : w.threads t = .migrationCopies within old) (hfile : w.manifest = some raw) :
    Step r w (w.goes t (.migrationSaves within old raw))
  | migrationSaves {w : World θ} {t : θ} {within : Bool} {old : Members} {raw : List Char}
    (h : w.threads t = .migrationSaves within old raw) (backup : String) :
    Step r w ((w.save backup raw).goes t (.migrationBuilds within old))
  | migrationBuilds {w : World θ} {t : θ} {within : Bool} {old : Members}
    (h : w.threads t = .migrationBuilds within old)
    (hvalid : validateManifest r (migrated old) = .ok ()) :
    Step r w (w.goes t (.migrationWrites within (migrated old)))
  | migrationWrites {w : World θ} {t : θ} {within : Bool} {document : Members}
    {content : List Char} (h : w.threads t = .migrationWrites within document)
    (hcontent : encodedJson document = some content) :
    Step r w ((w.publish content).goes t (.migrationChecks within))
  | migrationChecks {w : World θ} {t : θ} {within : Bool} {document : Members}
    (h : w.threads t = .migrationChecks within)
    (hload : loadManifest r w.manifest = .ok document) :
    Step r w (w.goes t (.after within))
  /-- `update_graph_cursor` -/
  | cursor {w : World θ} {t : θ} (commit branch : Option (List Char))
    (h : w.threads t = .idle) : Step r w (w.goes t (.cursorWaits commit branch))
  | cursorEnters {w : World θ} {t : θ} {commit branch : Option (List Char)}
    (h : w.threads t = .cursorWaits commit branch) (hfree : w.free .manifest) :
    Step r w (w.goes t (.cursorReads commit branch))
  | cursorUnchanged {w : World θ} {t : θ} {commit branch : Option (List Char)}
    {manifest graph : Members} (h : w.threads t = .cursorReads commit branch)
    (hload : loadManifest r w.manifest = .ok manifest)
    (hgraph : manifest.get "graph" = some (.obj graph))
    (hsame : text (graph.get "indexed_commit") = commit ∧
      text (graph.get "indexed_branch") = branch) :
    Step r w (w.goes t .idle)
  | cursorChanges {w : World θ} {t : θ} {commit branch : Option (List Char)}
    {manifest graph : Members} (h : w.threads t = .cursorReads commit branch)
    (hload : loadManifest r w.manifest = .ok manifest)
    (hgraph : manifest.get "graph" = some (.obj graph))
    (hother : ¬ (text (graph.get "indexed_commit") = commit ∧
      text (graph.get "indexed_branch") = branch))
    (hvalid : validateManifest r (withCursor manifest graph commit branch) = .ok ()) :
    Step r w (w.goes t (.cursorWrites (withCursor manifest graph commit branch)))
  | cursorWrites {w : World θ} {t : θ} {document : Members} {content : List Char}
    (h : w.threads t = .cursorWrites document)
    (hcontent : encodedJson document = some content) :
    Step r w ((w.publish content).goes t .idle)

/-! ## What the manifest is -/

/-- A manifest of the current schema. -/
def Current (r : Readers) (content : List Char) : Prop :=
  ∃ document, loadManifest r (some content) = .ok document

/-- A manifest of the schema before. -/
def SchemaOne (r : Readers) (content : List Char) : Prop :=
  ∃ old, readJsonObject content = some old ∧ equals r (old.get "schema_version") 1 = true

/-- A manifest made from what was there: a new one where there was none, a migrated one, or one
with another cursor. -/
inductive Revision (r : Readers) : Option (List Char) → List Char → Prop
  | bootstrapped {project : Project} {content : List Char}
    (h : encodedJson (manifestDocument project) = some content) : Revision r none content
  | migrated {raw content : List Char} {old : Members} (hread : readJsonObject raw = some old)
    (hold : validateV1 r old = .ok ())
    (h : encodedJson (ManifestStore.migrated old) = some content) :
    Revision r (some raw) content
  | cursor {before content : List Char} {manifest graph : Members}
    {commit branch : Option (List Char)} (hread : loadManifest r (some before) = .ok manifest)
    (hgraph : manifest.get "graph" = some (.obj graph))
    (h : encodedJson (withCursor manifest graph commit branch) = some content) :
    Revision r (some before) content

theorem loadManifest_eq_ok {r : Readers} {content : List Char} {document : Members}
    (h : loadManifest r (some content) = .ok document) :
    readJsonObject content = some document ∧ validateManifest r document = .ok () := by
  unfold loadManifest at h
  dsimp only at h
  cases hread : readJsonObject content with
  | none =>
    rw [hread] at h
    cases h
  | some found =>
    rw [hread] at h
    obtain ⟨_, hvalid, h⟩ := Outcome.bind_eq_ok.mp h
    obtain rfl := Except.ok.inj h
    exact ⟨rfl, hvalid⟩

/-- No text is of both schemas. -/
theorem Current.not_schemaOne {r : Readers} {content : List Char} (h : Current r content) :
    ¬ SchemaOne r content := by
  rintro ⟨old, hread, hversion⟩
  obtain ⟨document, hload⟩ := h
  obtain ⟨hfound, hvalid⟩ := loadManifest_eq_ok hload
  obtain rfl := Option.some.inj (hread.symm.trans hfound)
  rw [equals_of_valid hvalid] at hversion
  cases hversion

/-! ## The invariant -/

/-- What a thread that is going to write relies on. -/
def Phase.Fits (r : Readers) (manifest : Option (List Char))
    (backups : String → Option (List Char)) : Phase → Prop
  | .bootstrapWrites document =>
    manifest = none ∧ validateManifest r document = .ok () ∧
      ∃ project, document = manifestDocument project
  | .migrationCopies _ old =>
    ∃ raw, manifest = some raw ∧ readJsonObject raw = some old ∧
      equals r (old.get "schema_version") 1 = true ∧ validateV1 r old = .ok ()
  | .migrationSaves _ old raw =>
    manifest = some raw ∧ readJsonObject raw = some old ∧
      equals r (old.get "schema_version") 1 = true ∧ validateV1 r old = .ok ()
  | .migrationBuilds _ old =>
    ∃ raw, manifest = some raw ∧ readJsonObject raw = some old ∧
      equals r (old.get "schema_version") 1 = true ∧ validateV1 r old = .ok () ∧
      ∃ backup, backups backup = some raw
  | .migrationWrites _ document =>
    validateManifest r document = .ok () ∧ ∃ raw old, document = migrated old ∧
      manifest = some raw ∧ readJsonObject raw = some old ∧
      equals r (old.get "schema_version") 1 = true ∧ validateV1 r old = .ok () ∧
      ∃ backup, backups backup = some raw
  | .cursorWrites document =>
    validateManifest r document = .ok () ∧ ∃ content found graph commit branch,
      document = withCursor found graph commit branch ∧ manifest = some content ∧
      loadManifest r (some content) = .ok found ∧ found.get "graph" = some (.obj graph)
  | _ => True

/-- Whether a thread relies on what it read. -/
def Phase.relies : Phase → Option LockName
  | .bootstrapWrites _ => some .bootstrap
  | .migrationCopies _ _ => some .migration
  | .migrationSaves _ _ _ => some .migration
  | .migrationBuilds _ _ => some .migration
  | .migrationWrites _ _ => some .migration
  | .cursorWrites _ => some .manifest
  | _ => none

/-- What holds in every run from a world where every thread is idle. -/
structure Sound (r : Readers) (w₀ w : World θ) : Prop where
  manifest : w.manifest = w₀.manifest ∨ ∃ content, w.manifest = some content ∧ Current r content
  kept : ∀ content, w₀.manifest = some content → SchemaOne r content →
    w.manifest ≠ some content → ∃ backup, w.backups backup = some content
  fits : ∀ t, (w.threads t).Fits r w.manifest w.backups
  locked : ∀ lock t u, (w.threads t).holds lock = true → (w.threads u).holds lock = true → t = u

/-- A thread that relies on nothing fits everywhere. -/
theorem Phase.fits_of_relies {r : Readers} {phase : Phase} (h : phase.relies = none)
    (manifest : Option (List Char)) (backups : String → Option (List Char)) :
    phase.Fits r manifest backups := by
  cases phase <;> first | exact True.intro | cases h

/-- A thread holds the lock it relies on. -/
theorem Phase.holds_of_relies {phase : Phase} {lock : LockName}
    (h : phase.relies = some lock) : phase.holds lock = true := by
  cases phase <;> cases h <;> rfl

/-- What a thread relies on, by its lock: no manifest, one of the schema before, one of the
current schema. -/
theorem Phase.Fits.relied {r : Readers} {phase : Phase} {manifest : Option (List Char)}
    {backups : String → Option (List Char)} (hfits : phase.Fits r manifest backups)
    {lock : LockName} (h : phase.relies = some lock) :
    (lock = .bootstrap ∧ manifest = none) ∨
      (lock = .migration ∧ ∃ raw, manifest = some raw ∧ SchemaOne r raw) ∨
      (lock = .manifest ∧ ∃ content, manifest = some content ∧ Current r content) := by
  cases phase with
  | bootstrapWrites document =>
    cases h
    exact Or.inl ⟨rfl, hfits.1⟩
  | migrationCopies within old =>
    cases h
    obtain ⟨raw, hfile, hread, hversion, _⟩ := hfits
    exact Or.inr (Or.inl ⟨rfl, raw, hfile, old, hread, hversion⟩)
  | migrationSaves within old raw =>
    cases h
    obtain ⟨hfile, hread, hversion, _⟩ := hfits
    exact Or.inr (Or.inl ⟨rfl, raw, hfile, old, hread, hversion⟩)
  | migrationBuilds within old =>
    cases h
    obtain ⟨raw, hfile, hread, hversion, _⟩ := hfits
    exact Or.inr (Or.inl ⟨rfl, raw, hfile, old, hread, hversion⟩)
  | migrationWrites within document =>
    cases h
    obtain ⟨_, raw, old, _, hfile, hread, hversion, _⟩ := hfits
    exact Or.inr (Or.inl ⟨rfl, raw, hfile, old, hread, hversion⟩)
  | cursorWrites document =>
    cases h
    obtain ⟨_, content, found, graph, commit, branch, _, hfile, hload, _⟩ := hfits
    exact Or.inr (Or.inr ⟨rfl, content, hfile, found, hload⟩)
  | _ => cases h

namespace Sound

variable {r : Readers} {w₀ w : World θ} (hs : Sound r w₀ w)

include hs

omit [DecidableEq θ] in
/-- Two threads that rely on what they read are the same. -/
theorem relies_unique {t u : θ} {lock lock' : LockName}
    (ht : (w.threads t).relies = some lock) (hu : (w.threads u).relies = some lock') :
    t = u := by
  have hsame : lock = lock' := by
    rcases (hs.fits t).relied ht with ⟨rfl, hnone⟩ | ⟨rfl, raw, hraw, hone⟩ | ⟨rfl, c, hc, hcur⟩
      <;> rcases (hs.fits u).relied hu with
        ⟨rfl, hnone'⟩ | ⟨rfl, raw', hraw', hone'⟩ | ⟨rfl, c', hc', hcur'⟩
    · rfl
    · cases hnone.symm.trans hraw'
    · cases hnone.symm.trans hc'
    · cases hnone'.symm.trans hraw
    · rfl
    · obtain rfl := Option.some.inj (hraw.symm.trans hc')
      exact absurd hone hcur'.not_schemaOne
    · cases hnone'.symm.trans hc
    · obtain rfl := Option.some.inj (hraw'.symm.trans hc)
      exact absurd hone' hcur.not_schemaOne
    · rfl
  subst hsame
  exact hs.locked lock t u (Phase.holds_of_relies ht) (Phase.holds_of_relies hu)

/-- A thread goes on and the locks stay exclusive. -/
theorem locked_goes {t : θ} {phase : Phase}
    (hlocks : ∀ lock, phase.holds lock = true →
      (w.threads t).holds lock = true ∨ w.free lock) (lock : LockName) (u v : θ)
    (hu : ((w.goes t phase).threads u).holds lock = true)
    (hv : ((w.goes t phase).threads v).holds lock = true) : u = v := by
  have hothers : ∀ x, x ≠ t → (w.threads x).holds lock = true → phase.holds lock = true →
      False := by
    intro x hx hheld hphase
    rcases hlocks lock hphase with hmine | hfree
    · exact hx (hs.locked lock x t hheld hmine)
    · exact absurd hheld (by rw [hfree x]; decide)
  unfold World.goes at hu hv
  dsimp only at hu hv
  by_cases hut : u = t <;> by_cases hvt : v = t
  · rw [hut, hvt]
  · rw [hut, Function.update_self] at hu
    rw [Function.update_of_ne hvt] at hv
    exact (hothers v hvt hv hu).elim
  · rw [hvt, Function.update_self] at hv
    rw [Function.update_of_ne hut] at hu
    exact (hothers u hut hu hv).elim
  · rw [Function.update_of_ne hut] at hu
    rw [Function.update_of_ne hvt] at hv
    exact hs.locked lock u v hu hv

/-- A thread goes on where nothing is written. -/
theorem goes {t : θ} {phase : Phase} (hfits : phase.Fits r w.manifest w.backups)
    (hlocks : ∀ lock, phase.holds lock = true →
      (w.threads t).holds lock = true ∨ w.free lock) :
    Sound r w₀ (w.goes t phase) := by
  refine ⟨hs.manifest, hs.kept, fun u => ?_, hs.locked_goes hlocks⟩
  by_cases hut : u = t
  · subst hut
    simpa [World.goes] using hfits
  · simpa [World.goes, Function.update_of_ne hut] using hs.fits u

/-- The others fit whatever the one that relies on the manifest writes. -/
theorem fits_others {t : θ} {lock : LockName} (ht : (w.threads t).relies = some lock)
    {next : Phase} {manifest : Option (List Char)} {backups : String → Option (List Char)}
    (hnext : next.Fits r manifest backups) (u : θ) :
    (Function.update w.threads t next u).Fits r manifest backups := by
  by_cases hut : u = t
  · subst hut
    rwa [Function.update_self]
  · rw [Function.update_of_ne hut]
    cases hu : (w.threads u).relies with
    | none => exact Phase.fits_of_relies hu _ _
    | some lock' => exact absurd (hs.relies_unique hu ht) hut

/-- The manifest is written by the one that relies on what it was. -/
theorem publish {t : θ} {lock : LockName} (ht : (w.threads t).relies = some lock)
    {content : List Char} (hcurrent : Current r content)
    (hkept : ∀ raw, w.manifest = some raw → SchemaOne r raw →
      ∃ backup, w.backups backup = some raw)
    {next : Phase} (hnext : next.relies = none)
    (hlocks : ∀ lock, next.holds lock = true → (w.threads t).holds lock = true) :
    Sound r w₀ ((w.publish content).goes t next) := by
  refine ⟨Or.inr ⟨content, rfl, hcurrent⟩, fun first hfirst hone _ => ?_,
    hs.fits_others ht (Phase.fits_of_relies hnext _ _),
    hs.locked_goes fun lock hlock => Or.inl (hlocks lock hlock)⟩
  by_cases hstill : w.manifest = some first
  · exact hkept first hstill hone
  · exact hs.kept first hfirst hone hstill

/-- A backup is written of a manifest that is still there. -/
theorem save {t : θ} {within : Bool} {old : Members} {raw : List Char}
    (ht : w.threads t = .migrationSaves within old raw) (backup : String) :
    Sound r w₀ ((w.save backup raw).goes t (.migrationBuilds within old)) := by
  have hrelies : (w.threads t).relies = some .migration := by rw [ht]; rfl
  have hfits := hs.fits t
  rw [ht] at hfits
  obtain ⟨hfile, hread, hversion, hvalid⟩ := hfits
  refine ⟨hs.manifest, fun first hfirst hone hne => ?_, ?_, ?_⟩
  · -- the manifest is of the schema before, so it is the first one
    rcases hs.manifest with hsame | ⟨content, hcontent, hcurrent⟩
    · exact absurd (hsame.trans hfirst) hne
    · obtain rfl := Option.some.inj (hfile.symm.trans hcontent)
      exact absurd ⟨old, hread, hversion⟩ hcurrent.not_schemaOne
  · exact hs.fits_others hrelies
      ⟨raw, hfile, hread, hversion, hvalid, backup, Function.update_self _ _ _⟩
  · refine hs.locked_goes fun lock hlock => Or.inl ?_
    rw [ht]
    cases lock <;> exact hlock

end Sound

/-- A manifest that may be encoded is current once it is written. -/
theorem current_of_encoded {r : Readers} {document : Members} {content : List Char}
    (hvalid : validateManifest r document = .ok ())
    (h : encodedJson document = some content) : Current r content :=
  ⟨document.sorted, loadManifest_encodedJson hvalid h⟩

/-- One step keeps the invariant. -/
theorem Sound.step {r : Readers} {w₀ w w' : World θ} (hs : Sound r w₀ w)
    (hstep : Step r w w') : Sound r w₀ w' := by
  have hafter : ∀ within lock, (Phase.after within).holds lock = true →
      within = true ∧ lock = .bootstrap := by
    intro within lock hlock
    cases within <;> cases lock <;> first | exact ⟨rfl, rfl⟩ | cases hlock
  cases hstep with
  | stop t => exact hs.goes True.intro fun lock hlock => by cases lock <;> cases hlock
  | bootstrap project h =>
    exact hs.goes True.intro fun lock hlock => by cases lock <;> cases hlock
  | bootstrapEnters h hfree =>
    refine hs.goes True.intro fun lock hlock => ?_
    cases lock <;> first | exact Or.inr hfree | cases hlock
  | @bootstrapFinds t project h hfound =>
    refine hs.goes True.intro fun lock hlock => Or.inl ?_
    rw [h]
    cases lock <;> first | rfl | cases hlock
  | @bootstrapPrepares t project h hnone hname hvalid =>
    refine hs.goes ⟨hnone, hvalid, project, rfl⟩ fun lock hlock => Or.inl ?_
    rw [h]
    cases lock <;> first | rfl | cases hlock
  | @bootstrapWrites t document content h hcontent =>
    have hfits := hs.fits t
    rw [h] at hfits
    obtain ⟨hnone, hvalid, _⟩ := hfits
    refine hs.publish (t := t) (by rw [h]; rfl) (current_of_encoded hvalid hcontent)
      (fun raw hraw _ => by cases hnone.symm.trans hraw) rfl fun lock hlock => ?_
    rw [h]
    cases lock <;> first | rfl | cases hlock
  | bootstrapFinishes h =>
    exact hs.goes True.intro fun lock hlock => by cases lock <;> cases hlock
  | ensure h =>
    exact hs.goes True.intro fun lock hlock => by cases lock <;> cases hlock
  | @ensureLoads t within document h hload =>
    refine hs.goes (Phase.fits_of_relies (by cases within <;> rfl) _ _) fun lock hlock =>
      Or.inl ?_
    obtain ⟨rfl, rfl⟩ := hafter within lock hlock
    rw [h]
    rfl
  | @ensureMigrates t within message h hload =>
    refine hs.goes True.intro fun lock hlock => Or.inl ?_
    rw [h]
    cases lock <;> exact hlock
  | @migrationEnters t within h hfile hfree =>
    refine hs.goes True.intro fun lock hlock => ?_
    cases lock with
    | bootstrap =>
      rw [h]
      exact Or.inl hlock
    | migration => exact Or.inr hfree
    | manifest => cases hlock
  | @migrationFindsCurrent t within content old h hfile hread hversion hvalid =>
    refine hs.goes (Phase.fits_of_relies (by cases within <;> rfl) _ _) fun lock hlock =>
      Or.inl ?_
    obtain ⟨rfl, rfl⟩ := hafter within lock hlock
    rw [h]
    rfl
  | @migrationFindsOld t within content old h hfile hread hother hversion hvalid =>
    refine hs.goes ⟨content, hfile, hread, hversion, hvalid⟩ fun lock hlock => Or.inl ?_
    rw [h]
    cases lock <;> exact hlock
  | @migrationCopies t within old raw h hfile =>
    have hfits := hs.fits t
    rw [h] at hfits
    obtain ⟨content, hcontent, hread, hversion, hvalid⟩ := hfits
    obtain rfl := Option.some.inj (hfile.symm.trans hcontent)
    refine hs.goes ⟨hfile, hread, hversion, hvalid⟩ fun lock hlock => Or.inl ?_
    rw [h]
    cases lock <;> exact hlock
  | migrationSaves h backup => exact hs.save h backup
  | @migrationBuilds t within old h hvalid =>
    have hfits := hs.fits t
    rw [h] at hfits
    obtain ⟨raw, hfits⟩ := hfits
    refine hs.goes ⟨hvalid, raw, old, rfl, hfits⟩ fun lock hlock => Or.inl ?_
    rw [h]
    cases lock <;> exact hlock
  | @migrationWrites t within document content h hcontent =>
    have hfits := hs.fits t
    rw [h] at hfits
    obtain ⟨hvalid, raw, old, _, hfile, _, _, _, backup, hbackup⟩ := hfits
    refine hs.publish (t := t) (by rw [h]; rfl) (current_of_encoded hvalid hcontent)
      (fun found hfound _ => ?_) rfl fun lock hlock => ?_
    · obtain rfl := Option.some.inj (hfile.symm.trans hfound)
      exact ⟨backup, hbackup⟩
    · rw [h]
      cases lock <;> exact hlock
  | @migrationChecks t within document h hload =>
    refine hs.goes (Phase.fits_of_relies (by cases within <;> rfl) _ _) fun lock hlock =>
      Or.inl ?_
    obtain ⟨rfl, rfl⟩ := hafter within lock hlock
    rw [h]
    rfl
  | cursor commit branch h =>
    exact hs.goes True.intro fun lock hlock => by cases lock <;> cases hlock
  | cursorEnters h hfree =>
    refine hs.goes True.intro fun lock hlock => ?_
    cases lock <;> first | exact Or.inr hfree | cases hlock
  | cursorUnchanged h hload hgraph hsame =>
    exact hs.goes True.intro fun lock hlock => by cases lock <;> cases hlock
  | @cursorChanges t commit branch found graph h hload hgraph hother hvalid =>
    cases hfile : w.manifest with
    | none =>
      rw [hfile] at hload
      cases hload
    | some content =>
      rw [hfile] at hload
      refine hs.goes ⟨hvalid, content, found, graph, commit, branch, rfl, hfile, hload, hgraph⟩
        fun lock hlock => Or.inl ?_
      rw [h]
      cases lock <;> exact hlock
  | @cursorWrites t document content h hcontent =>
    have hfits := hs.fits t
    rw [h] at hfits
    obtain ⟨hvalid, before, found, graph, commit, branch, _, hfile, hload, _⟩ := hfits
    refine hs.publish (t := t) (by rw [h]; rfl) (current_of_encoded hvalid hcontent)
      (fun raw hraw hone => ?_) rfl fun lock hlock => by cases lock <;> cases hlock
    obtain rfl := Option.some.inj (hfile.symm.trans hraw)
    exact absurd hone (Current.not_schemaOne ⟨found, hload⟩)

/-- A step leaves the manifest or replaces it by one made from it, of the schema before only
where there is a backup. -/
theorem Sound.revises {r : Readers} {w₀ w w' : World θ} (hs : Sound r w₀ w)
    (hstep : Step r w w') :
    w'.manifest = w.manifest ∨ ∃ content, w'.manifest = some content ∧
      Revision r w.manifest content ∧
      ∀ raw, w.manifest = some raw → SchemaOne r raw →
        ∃ backup, w.backups backup = some raw := by
  cases hstep with
  | @bootstrapWrites t document content h hcontent =>
    have hfits := hs.fits t
    rw [h] at hfits
    obtain ⟨hnone, _, project, rfl⟩ := hfits
    rw [hnone]
    exact Or.inr ⟨content, rfl, .bootstrapped hcontent, fun raw hraw => by cases hraw⟩
  | @migrationWrites t within document content h hcontent =>
    have hfits := hs.fits t
    rw [h] at hfits
    obtain ⟨_, raw, old, rfl, hfile, hread, _, hold, hbackup⟩ := hfits
    rw [hfile]
    refine Or.inr ⟨content, rfl, .migrated hread hold hcontent, fun found hfound _ => ?_⟩
    obtain rfl := Option.some.inj hfound
    exact hbackup
  | @cursorWrites t document content h hcontent =>
    have hfits := hs.fits t
    rw [h] at hfits
    obtain ⟨_, before, found, graph, commit, branch, rfl, hfile, hload, hgraph⟩ := hfits
    rw [hfile]
    refine Or.inr ⟨content, rfl, .cursor hload hgraph hcontent, fun raw hraw hone => ?_⟩
    obtain rfl := Option.some.inj hraw
    exact absurd hone (Current.not_schemaOne ⟨found, hload⟩)
  | _ => exact Or.inl rfl

omit [DecidableEq θ] in
/-- The invariant holds where every thread is idle. -/
theorem Sound.start {r : Readers} {w : World θ} (h : ∀ t, w.threads t = .idle) :
    Sound r w w := by
  refine ⟨Or.inl rfl, fun content hcontent _ hne => absurd hcontent hne, fun t => ?_,
    fun lock t u ht _ => ?_⟩
  · rw [h t]
    exact True.intro
  · rw [h t] at ht
    cases lock <;> cases ht

open Relation

/-- In every run of the writers, stopped anywhere: the manifest is what it was at first or one of
the current schema; every step leaves it or replaces it by one made from the very content it
replaces, and content of the schema before only with its bytes among the backups; and these stay
there. -/
theorem manifest_writers {θ : Type*} [DecidableEq θ] (r : Readers) {w₀ w : World θ}
    (hidle : ∀ t, w₀.threads t = .idle) (hrun : ReflTransGen (Step r) w₀ w) :
    (w.manifest = w₀.manifest ∨ ∃ content, w.manifest = some content ∧ Current r content) ∧
    (∀ w', Step r w w' → w'.manifest = w.manifest ∨
      ∃ content, w'.manifest = some content ∧ Revision r w.manifest content ∧
        ∀ raw, w.manifest = some raw → SchemaOne r raw →
          ∃ backup, w.backups backup = some raw) ∧
    (∀ content, w₀.manifest = some content → SchemaOne r content →
      w.manifest ≠ some content → ∃ backup, w.backups backup = some content) := by
  have hsound : Sound r w₀ w :=
    System.Preserved.run (fun _ _ hs hstep => hs.step hstep) hrun (Sound.start hidle)
  exact ⟨hsound.manifest, fun w' hstep => hsound.revises hstep, hsound.kept⟩

/-- A manifest of the schema before. -/
def sampleOld : Members :=
  [("schema_version".toList, one),
    ("project".toList, .obj [("id".toList, literal "p"), ("name".toList, literal "Orqalis")]),
    ("initialized_at".toList, literal "2026-01-01T00:00:00+00:00"),
    ("graph".toList, .obj [("indexed_commit".toList, literal "abc")])]

/-- Its bytes. -/
def sampleBytes : List Char := Json.dumps 0 (.obj sampleOld) ++ ['\n']

/-- Readers that know the identifier and the time of the sample. -/
def sampleReaders : Readers where
  uuid := fun s => s = "p".toList
  fromisoformat := fun s => if s = "2026-01-01T00:00:00+00:00".toList then some true else none
  floats := fun _ _ => false

/-- The store of the sample, with two threads that are idle. -/
def sampleWorld : World Bool where
  manifest := some sampleBytes
  backups := fun _ => none
  threads := fun _ => .idle

theorem readJsonObject_sampleBytes : readJsonObject sampleBytes = some sampleOld := by
  unfold sampleBytes
  rw [readJsonObject_dumps, if_pos (by decide)]

/-- A thread migrates the sample. -/
theorem sample_migrates : ∃ w : World Bool, ReflTransGen (Step sampleReaders) sampleWorld w ∧
    w.manifest ≠ some sampleBytes := by
  have hload : loadManifest sampleReaders (some sampleBytes) = .error
      (.migrationRequired "Project store schema 1 requires migration to schema 2") := by
    unfold loadManifest
    dsimp only
    rw [readJsonObject_sampleBytes]
    rfl
  have hvalid : validateManifest sampleReaders (migrated sampleOld) = .ok () := by decide
  obtain ⟨content, hcontent⟩ := encodedJson_of_unique (m := migrated sampleOld) (by decide)
  have hfree : ∀ w : World Bool, (∀ u, u ≠ true → w.threads u = .idle) →
      w.threads true = .migrationWaits false → w.free .migration := by
    intro w hothers hmine u
    cases u with
    | true => rw [hmine]; rfl
    | false => rw [hothers false (by decide)]; rfl
  refine ⟨_, ((((((((ReflTransGen.refl).tail (.ensure (t := true) rfl)).tail
    (.ensureMigrates (t := true) rfl hload)).tail
    (.migrationEnters (t := true) rfl rfl (hfree _ ?_ rfl))).tail
    (.migrationFindsOld (t := true) rfl rfl readJsonObject_sampleBytes (by decide) (by decide)
      (by decide))).tail (.migrationCopies (t := true) rfl rfl)).tail
    (.migrationSaves (t := true) rfl "manifest.schema-1.yaml")).tail
    (.migrationBuilds (t := true) rfl hvalid)).tail
    (.migrationWrites (t := true) rfl hcontent), ?_⟩
  · intro heq
    have hsame : content = sampleBytes := Option.some.inj heq
    exact Current.not_schemaOne (current_of_encoded hvalid hcontent)
      (hsame ▸ ⟨sampleOld, readJsonObject_sampleBytes, by decide⟩)
  · intro u hu
    cases u with
    | true => exact absurd rfl hu
    | false => rfl

/-- The sample is migrated and its bytes are kept. -/
theorem sample_manifest_kept : ∃ w : World Bool,
    ReflTransGen (Step sampleReaders) sampleWorld w ∧ w.manifest ≠ some sampleBytes ∧
      ∃ backup, w.backups backup = some sampleBytes := by
  obtain ⟨w, hrun, hne⟩ := sample_migrates
  exact ⟨w, hrun, hne, (manifest_writers sampleReaders (fun _ => rfl) hrun).2.2 sampleBytes rfl
    ⟨sampleOld, readJsonObject_sampleBytes, by decide⟩ hne⟩

end ManifestStore

end Orqalis
