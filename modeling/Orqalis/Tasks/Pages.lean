import Orqalis.Context.Sizing
import Orqalis.Lib.Base64
import Orqalis.Lib.Loads
import Orqalis.Lib.Utf8
import Orqalis.Memory.Curated
import Orqalis.Tasks.History

/-!
# Pages of the task history

`page` reads the index anew for every page. A page that is not the last comes with a cursor: the
position after its entries, with a digest of the root and the project, and one of the entries in
their order. The cursor is the JSON of the three in base64 without padding.

The manifest, the index, the parser of identifiers and SHA-256 are arguments. No function to
digests is injective, so a digest is only asked to tell apart the two texts that a result is about.
-/

namespace Orqalis

open Lib

/-! ## Cursors -/

/-- The position of a page. -/
structure HistoryCursor where
  scope : HexDigest
  revision : HexDigest
  offset : Nat
  positive : 1 ≤ offset
deriving DecidableEq

namespace HistoryCursor

/-- The JSON of a cursor. -/
def modelDumpJson (c : HistoryCursor) : List Char :=
  Json.compact Json.escape <| .obj
    [("version".toList, Json.natural 1), ("scope".toList, .str c.scope.text),
      ("revision".toList, .str c.revision.text), ("offset".toList, Json.natural c.offset)]

/-- A member of an object; of several with one name the last counts. -/
def latest (key : String) (members : List (List Char × Json)) : Option Json :=
  (members.reverse.find? fun m => m.1 == key.toList).map Prod.snd

/-- A whole number, not spelled with a fraction or an exponent. -/
def wholeOf : Json → Option Int
  | .num n => if n.fractional then none else some (Json.whole n.spelling)
  | _ => none

def digestOf : Json → Option HexDigest
  | .str s => if h : isHexDigest s then some ⟨s, h⟩ else none
  | _ => none

def positiveOf (value : Json) : Option { n : Nat // 1 ≤ n } :=
  (wholeOf value).bind fun n => if h : 1 ≤ n.toNat then some ⟨n.toNat, h⟩ else none

/-- The version is the first, also where it is not given. -/
def versionOk : Option Json → Bool
  | none => true
  | some value => wholeOf value = some 1

/-- The contract's own members; others are refused. -/
def fields : List (List Char) :=
  ["version".toList, "scope".toList, "revision".toList, "offset".toList]

/-- Read a cursor from an object. -/
def modelValidate : Json → Option HistoryCursor
  | .obj members =>
    if members.all (fun m => fields.contains m.1) && versionOk (latest "version" members) then do
      let scope ← (latest "scope" members).bind digestOf
      let revision ← (latest "revision" members).bind digestOf
      let offset ← (latest "offset" members).bind positiveOf
      return ⟨scope, revision, offset.1, offset.2⟩
    else
      none
  | _ => none

/-- Read a cursor from the bytes of its JSON. -/
def modelValidateJson (data : List UInt8) : Option HistoryCursor :=
  (Utf8.decode data).bind fun s => (Json.loads s).bind modelValidate

/-- The cursor as it is handed out. -/
def token (c : HistoryCursor) : List Char :=
  Base64.unpad (Base64.encode (Utf8.encodeText c.modelDumpJson))

/-- Read a cursor that was handed in. -/
def ofToken (cursor : List Char) : Except Error HistoryCursor :=
  if cursor.length ≤ 1024 && !cursor.isEmpty && cursor.all (fun c => (Base64.value c).isSome) then
    match (Base64.decode (Base64.pad cursor)).bind modelValidateJson with
    | some position => .ok position
    | none => .error (.input "Invalid task history cursor")
  else
    .error (.input "Invalid task history cursor")

end HistoryCursor

/-! ## Entries -/

/-- An entry with its tags, which the index does not hold. -/
structure IndexedEntry extends TaskHistoryEntry where
  tags : List String
deriving DecidableEq

namespace IndexedEntry

open HistoryJson

/-- A text, or nothing. -/
def optionalText : Option Json → Option (Option String)
  | none => some none
  | some .null => some none
  | some (.str s) => some (some (String.ofList s))
  | some _ => none

/-- A list of texts, which may be left out. -/
def texts : Option Json → Option (List String)
  | none => some []
  | some (.arr items) => items.mapM fun item => asText (some item)
  | some _ => none

/-- The contract's own members; others are refused. -/
def fields : List (List Char) :=
  ["id".toList, "run_id".toList, "title".toList, "status".toList, "created_at".toList,
    "completed_at".toList, "branch".toList, "starting_commit".toList, "final_commit".toList,
    "acceptance_result".toList, "agents".toList, "tags".toList]

/-- Read an entry from a value of the index. -/
def modelValidate (uuid : String → Option UUID) : Json → Option IndexedEntry
  | .obj members =>
    let value : Json := .obj members
    if members.all (fun m => fields.contains m.1) then do
      let id ← asText (memberOf "id" value)
      let runId ← (asText (memberOf "run_id" value)).bind uuid
      let title ← asText (memberOf "title" value)
      let status ← asText (memberOf "status" value)
      let createdAt ← asText (memberOf "created_at" value)
      let completedAt ← optionalText (memberOf "completed_at" value)
      let branch ← optionalText (memberOf "branch" value)
      let startingCommit ← optionalText (memberOf "starting_commit" value)
      let finalCommit ← optionalText (memberOf "final_commit" value)
      let acceptanceResult ← optionalText (memberOf "acceptance_result" value)
      let agents ← texts (memberOf "agents" value)
      let tags ← texts (memberOf "tags" value)
      return {
        id, runId, title, status, createdAt, completedAt, branch, startingCommit, finalCommit,
        acceptanceResult, agents, tags }
    else
      none
  | _ => none

/-- An entry as an object, its members in the order of their names. -/
def dump (e : IndexedEntry) : Json :=
  object
    [("acceptance_result", nullable e.acceptanceResult), ("agents", .arr (e.agents.map text)),
      ("branch", nullable e.branch), ("completed_at", nullable e.completedAt),
      ("created_at", text e.createdAt), ("final_commit", nullable e.finalCommit),
      ("id", text e.id), ("run_id", text e.runId.text),
      ("starting_commit", nullable e.startingCommit), ("status", text e.status),
      ("tags", .arr (e.tags.map text)), ("title", text e.title)]

/-- The newest entries first, of one time by their identifier. -/
def newestFirst (x y : IndexedEntry) : Prop :=
  TaskHistoryService.newestFirst x.toTaskHistoryEntry y.toTaskHistoryEntry

instance : DecidableRel newestFirst := fun x y =>
  inferInstanceAs (Decidable (TaskHistoryService.newestFirst x.1 y.1))

end IndexedEntry

/-! ## Pages -/

/-- The index as it is read, a list of the interpreter. -/
structure TaskIndex where
  raw : List Json
  small : raw.length ≤ sysMaxsize

/-- What the language's libraries answer. -/
structure PageLibraries where
  normcase : String → String
  uuid : String → Option UUID
  sha256 : List UInt8 → HexDigest

/-- A project whose history is read: its root, and what reading its manifest and its index comes
to. Reading the index may repair its file. -/
structure HistoryProject (σ : Type) where
  root : String
  loadManifest : σ → Except Error Json
  readIndex : σ → Except Error TaskIndex × σ

structure TaskHistoryPage where
  items : List IndexedEntry
  total : Nat
  revision : HexDigest
  nextCursor : Option (List Char)
deriving DecidableEq

namespace PageLibraries

open HistoryJson

variable (lib : PageLibraries)

/-- What the digest of a scope is taken of. -/
def scopeText (root projectId : String) : List UInt8 :=
  Utf8.encodeText <| Json.compact Json.escapeAscii <|
    .arr [text (lib.normcase root), text projectId]

/-- What the digest of a revision is taken of. -/
def revisionText (entries : List IndexedEntry) : List UInt8 :=
  Utf8.encodeText <| Json.compact Json.escapeAscii <| .arr (entries.map IndexedEntry.dump)

def scope (root projectId : String) : HexDigest := lib.sha256 (lib.scopeText root projectId)

def revision (entries : List IndexedEntry) : HexDigest := lib.sha256 (revisionText entries)

/-- The entry of a value of the index. -/
def validated (value : Json) : Except Error IndexedEntry :=
  match IndexedEntry.modelValidate lib.uuid value with
  | some entry => .ok entry
  | none => .error (.conflict "Task history index contains an invalid entry")

/-- The entries of an index in their order. -/
def entries (index : TaskIndex) : Except Error (List IndexedEntry) := do
  let found ← index.raw.mapM lib.validated
  .ok (found.insertionSort IndexedEntry.newestFirst)

end PageLibraries

namespace HistoryProject

open HistoryJson

variable {σ : Type} (lib : PageLibraries) (P : HistoryProject σ)

/-- The identifier of the project. -/
def projectId (disk : σ) : Except Error String := do
  let manifest ← P.loadManifest disk
  match memberOf "project" manifest with
  | some (.obj members) => TaskHistoryService.required "project ID" (memberOf "id" (.obj members))
  | _ => .error (.conflict "Task history project identity is invalid")

/-- The position a cursor names. -/
def position : Option (List Char) → Except Error (Option HistoryCursor)
  | none => .ok none
  | some cursor => (HistoryCursor.ofToken cursor).map some

/-- What is checked before the index is read. -/
def admitted (limit : Int) (cursor : Option (List Char)) (disk : σ) :
    Except Error (Option HistoryCursor × HexDigest) :=
  if limit < 1 ∨ 100 < limit then
    .error (.input "Task page limit must be between 1 and 100")
  else do
    let position ← position cursor
    let projectId ← P.projectId disk
    if position.any fun p => p.scope ≠ lib.scope P.root projectId then
      .error (.policyDenied "Task history cursor belongs to another project root")
    else
      .ok (position, lib.scope P.root projectId)

/-- The cursor behind `following` of `total` entries. -/
def nextCursor (scope revision : HexDigest) (following total : Nat) :
    Except Error (Option (List Char)) :=
  if following < total then
    if h : 1 ≤ following then .ok (some (HistoryCursor.token ⟨scope, revision, following, h⟩))
    else .error (.runtime "ValidationError")
  else
    .ok none

/-- The page at a position. -/
def pageAt (limit : Int) (position : Option HistoryCursor) (scope : HexDigest)
    (entries : List IndexedEntry) : Except Error TaskHistoryPage :=
  let offset := position.elim 0 HistoryCursor.offset
  if position.any fun p => p.revision ≠ lib.revision entries then
    .error (.conflict "Task history changed; restart pagination without a cursor")
  else if position.isSome ∧ entries.length ≤ offset then
    .error (.input "Task history cursor position is invalid")
  else do
    let items := (entries.drop offset).take limit.toNat
    let next ← nextCursor scope (lib.revision entries) (offset + items.length) entries.length
    .ok { items, total := entries.length, revision := lib.revision entries, nextCursor := next }

/-- `page` -/
def page (limit : Int) (cursor : Option (List Char)) (disk : σ) :
    Except Error TaskHistoryPage × σ :=
  match P.admitted lib limit cursor disk with
  | .error e => (.error e, disk)
  | .ok (position, scope) =>
    let (index, disk') := P.readIndex disk
    (index.bind fun index => (lib.entries index).bind fun entries =>
      pageAt lib limit position scope entries, disk')

/-! ## What the pages are to do -/

/-- The entries a reader sees who follows the cursors from the first page on: the `n`th time it
asks for `limits n` entries and finds the disk as `disks n`. Nothing after so many rounds means
that there are more pages. -/
def follow (limits : Nat → Int) (disks : Nat → σ) : Nat → Nat → Option (List Char) →
    Except Error (Option (List IndexedEntry))
  | 0, _, _ => .ok none
  | rounds + 1, n, cursor => do
    let page ← (P.page lib (limits n) cursor (disks n)).1
    match page.nextCursor with
    | none => .ok (some page.items)
    | some next => do
      let rest ← follow limits disks rounds (n + 1) (some next)
      .ok (rest.map (page.items ++ ·))

/-- A page came with a cursor. -/
structure Issued (limit : Int) (cursor : Option (List Char)) (disk : σ) (page : TaskHistoryPage)
    (next : List Char) : Prop where
  shown : (P.page lib limit cursor disk).1 = .ok page
  issued : page.nextCursor = some next

/-- As long as the index is the same, the pages show each of its entries once, the newest first,
and come to an end. -/
def Complete : Prop :=
  ∀ (limits : Nat → Int) (disks : Nat → σ) (id : String) (index : TaskIndex)
    (found : List IndexedEntry), (∀ n, 1 ≤ limits n ∧ limits n ≤ 100) →
    (∀ n, P.projectId (disks n) = .ok id) → (∀ n, (P.readIndex (disks n)).1 = .ok index) →
    index.raw.mapM lib.validated = .ok found →
    ∃ rounds ≤ found.length + 1, ∃ items,
      P.follow lib limits disks rounds 0 none = .ok (some items) ∧ items.Perm found ∧
      items.Pairwise IndexedEntry.newestFirst

/-- A cursor is decoded to the position after the entries of its page. -/
def Decodes : Prop :=
  ∀ limit cursor disk page next, P.Issued lib limit cursor disk page next →
    ∃ before id position, HistoryProject.position cursor = .ok before ∧
      P.projectId disk = .ok id ∧ HistoryCursor.ofToken next = .ok position ∧
      position.scope = lib.scope P.root id ∧ position.revision = page.revision ∧
      position.offset = before.elim 0 HistoryCursor.offset + page.items.length

/-- After a change of the index, which the digest of its entries shows, a cursor meets a
conflict. -/
def NoticesChange : Prop :=
  ∀ limit cursor disk page next limit' disk' id index index',
    P.Issued lib limit cursor disk page next → 1 ≤ limit' ∧ limit' ≤ 100 →
    P.projectId disk = .ok id → P.projectId disk' = .ok id →
    (P.readIndex disk).1 = .ok index → (P.readIndex disk').1 = .ok index' →
    lib.entries index ≠ lib.entries index' →
    (∀ entries entries', lib.entries index = .ok entries → lib.entries index' = .ok entries' →
      lib.revision entries = lib.revision entries' →
      PageLibraries.revisionText entries = PageLibraries.revisionText entries') →
    ∃ message, (P.page lib limit' (some next) disk').1 = .error (.conflict message)

/-- A project with another root, which the digest of the scope shows, refuses a cursor and leaves
the index unread. -/
def Bound : Prop :=
  ∀ (P' : HistoryProject σ) limit cursor disk page next limit' disk' id id',
    P.Issued lib limit cursor disk page next → 1 ≤ limit' ∧ limit' ≤ 100 →
    P.projectId disk = .ok id → P'.projectId disk' = .ok id' →
    lib.normcase P.root ≠ lib.normcase P'.root →
    (lib.scope P.root id = lib.scope P'.root id' →
      lib.scopeText P.root id = lib.scopeText P'.root id') →
    P'.page lib limit' (some next) disk' =
      (.error (.policyDenied "Task history cursor belongs to another project root"), disk')

end HistoryProject

/-! ## Cursors are read back -/

theorem escape_hexadecimal {c : Char} (h : (c.isDigit || ('a' ≤ c && c ≤ 'f')) = true) :
    Json.escape c = [c] ∧ c.toNat < 128 := by
  have hrange : 48 ≤ c.toNat ∧ c.toNat ≤ 57 ∨ 97 ≤ c.toNat ∧ c.toNat ≤ 102 := by
    simpa [Char.isDigit, Char.le_def, UInt32.le_iff_toNat_le] using h
  have hne : ∀ d : Char, d.toNat < 48 ∨ d.toNat = 92 → c ≠ d := by
    rintro d hd rfl
    omega
  refine ⟨?_, by omega⟩
  unfold Json.escape
  rw [if_neg (hne _ (by decide)), if_neg (hne _ (by decide)), if_neg (hne _ (by decide)),
    if_neg (hne _ (by decide)), if_neg (hne _ (by decide)), if_neg (hne _ (by decide)),
    if_neg (hne _ (by decide)), if_neg (by omega)]

namespace HistoryCursor

theorem flatMap_escape (d : HexDigest) : d.text.flatMap Json.escape = d.text := by
  have hhex := d.hexadecimal
  simp only [isHexDigest, Bool.and_eq_true, List.all_eq_true] at hhex
  calc d.text.flatMap Json.escape = d.text.flatMap fun c => [c] :=
        List.flatMap_congr fun c hc => (escape_hexadecimal (hhex.2 c hc)).1
    _ = d.text := by simp

theorem length_digest (d : HexDigest) : d.text.length = 64 := by
  have hhex := d.hexadecimal
  simp only [isHexDigest, Bool.and_eq_true, decide_eq_true_eq] at hhex
  exact hhex.1

theorem ascii_digest (d : HexDigest) : d.text.all fun c => c.toNat < 128 := by
  have hhex := d.hexadecimal
  simp only [isHexDigest, Bool.and_eq_true, List.all_eq_true] at hhex
  simpa using fun c hc => (escape_hexadecimal (hhex.2 c hc)).2

theorem ascii_toDigits (n : Nat) : (Nat.toDigits 10 n).all fun c => c.toNat < 128 := by
  have hdigit : ∀ c ∈ Nat.toDigits 10 n, c.toNat < 128 := fun c hc => by
    have hc := Nat.isDigit_of_mem_toDigits (by decide) (by decide) hc
    exact (escape_hexadecimal (by rw [hc]; rfl)).2
  simpa using hdigit

/-- The text of a cursor, around its three fields. -/
theorem modelDumpJson_eq (c : HistoryCursor) : c.modelDumpJson =
    '{' :: "\"version\":1,\"scope\":\"".toList ++ c.scope.text ++ "\",\"revision\":\"".toList ++
      c.revision.text ++ "\",\"offset\":".toList ++ Nat.toDigits 10 c.offset ++ ['}'] := by
  have hone : Nat.toDigits 10 1 = ['1'] := by decide
  unfold modelDumpJson
  simp only [Json.compact, Json.compactMembers, Json.quoteWith, flatMap_escape,
    Json.compact_natural, hone]
  simp [Json.escape]

/-- It is no longer than 176 characters and the digits of the offset. -/
theorem length_modelDumpJson (c : HistoryCursor) :
    (Utf8.encodeText c.modelDumpJson).length = 176 + Json.width c.offset := by
  have hascii : c.modelDumpJson.all fun c => c.toNat < 128 := by
    rw [modelDumpJson_eq]
    simp only [List.all_append, List.all_cons, ascii_digest, ascii_toDigits]
    decide
  rw [Utf8.length_encodeText hascii, modelDumpJson_eq]
  simp only [List.length_append, List.length_cons, length_digest, Json.width]
  simp
  omega

theorem wholeOf_natural (n : Nat) : wholeOf (Json.natural n) = some (n : Int) := by
  have hnumber : Json.natural n = .num (Json.wholeNumber n) := rfl
  rw [hnumber, wholeOf, Json.not_fractional_wholeNumber, Json.whole_wholeNumber]
  rfl

/-- The members a cursor is made of are found under their names. -/
theorem latest_members (version scope revision offset : Json) :
    latest "version" [("version".toList, version), ("scope".toList, scope),
        ("revision".toList, revision), ("offset".toList, offset)] = some version ∧
      latest "scope" [("version".toList, version), ("scope".toList, scope),
        ("revision".toList, revision), ("offset".toList, offset)] = some scope ∧
      latest "revision" [("version".toList, version), ("scope".toList, scope),
        ("revision".toList, revision), ("offset".toList, offset)] = some revision ∧
      latest "offset" [("version".toList, version), ("scope".toList, scope),
        ("revision".toList, revision), ("offset".toList, offset)] = some offset := by
  have hne : ∀ {s t : String}, s ≠ t → (s.toList == t.toList) = false := fun h =>
    beq_eq_false_iff_ne.mpr fun heq => h (String.toList_inj.mp heq)
  refine ⟨?_, ?_, ?_, ?_⟩ <;>
    simp only [latest, List.reverse_cons, List.reverse_nil, List.nil_append, List.cons_append,
      List.find?_cons, beq_self_eq_true, Option.map_some]
  · rw [hne (by decide), hne (by decide), hne (by decide)]
    rfl
  · rw [hne (by decide), hne (by decide)]
    rfl
  · rw [hne (by decide)]
    rfl

/-- A cursor is read back from its JSON. -/
theorem modelValidateJson_modelDumpJson (c : HistoryCursor) :
    modelValidateJson (Utf8.encodeText c.modelDumpJson) = some c := by
  have hdigest : ∀ d : HexDigest, digestOf (.str d.text) = some d := fun d => by
    rw [digestOf, dif_pos d.hexadecimal]
  have hoffset : positiveOf (Json.natural c.offset) = some ⟨c.offset, c.positive⟩ := by
    rw [positiveOf, wholeOf_natural, Option.bind_some, dif_pos (by simpa using c.positive)]
    rfl
  have hversion : versionOk (some (Json.natural 1)) = true := by
    rw [versionOk, wholeOf_natural]
    rfl
  obtain ⟨hlatest, hscope, hrevision, hlast⟩ := latest_members (Json.natural 1)
    (.str c.scope.text) (.str c.revision.text) (Json.natural c.offset)
  unfold modelValidateJson modelDumpJson
  rw [Utf8.decode_encodeText, Option.bind_some, Json.loads_compact Json.readsBack_escape,
    Option.bind_some, modelValidate, hlatest, hscope, hrevision, hlast]
  rw [if_pos]
  · simp only [Option.bind_some, hdigest, hoffset, Option.bind_eq_bind, Option.pure_def]
  · simp [fields, hversion]
/-- A cursor that was handed out names its position. -/
theorem ofToken_token {c : HistoryCursor} (h : c.offset ≤ sysMaxsize) :
    ofToken c.token = .ok c := by
  obtain ⟨k, -, hvalue, hk, hlength⟩ := Base64.unpad_encode (Utf8.encodeText c.modelDumpJson)
  have hwidth : Json.width c.offset ≤ 19 := by
    rw [Json.width_le_iff (by decide)]
    exact Nat.lt_of_le_of_lt h (by decide)
  rw [length_modelDumpJson] at hlength
  have hlong : c.token.length ≤ 1024 := by
    unfold token
    omega
  have hempty : c.token.isEmpty = false := by
    rw [List.isEmpty_eq_false_iff, ← List.length_pos_iff]
    unfold token
    omega
  have hall : c.token.all (fun c => (Base64.value c).isSome) = true :=
    List.all_eq_true.mpr hvalue
  unfold ofToken
  rw [if_pos (by simp [hlong, hempty, hall]), token, Base64.decode_pad, Option.bind_some,
    modelValidateJson_modelDumpJson]

end HistoryCursor

/-! ## Digests stand for what they are taken of -/

namespace IndexedEntry

open HistoryJson

theorem text_injective : Function.Injective text := fun s t h => by
  rw [text, text, Json.str.injEq] at h
  exact String.toList_injective h

theorem nullable_injective : Function.Injective nullable := by
  rintro (_ | s) (_ | t) h
  · rfl
  · simp [nullable, text] at h
  · simp [nullable, text] at h
  · rw [text_injective h]

theorem dump_injective : Function.Injective dump := by
  intro x y h
  have hlist : Function.Injective (List.map text) := List.map_injective_iff.mpr text_injective
  obtain ⟨⟨⟩, _⟩ := x
  obtain ⟨⟨⟩, _⟩ := y
  simpa [dump, object, text_injective.eq_iff, nullable_injective.eq_iff, hlist.eq_iff,
    UUID.text_injective.eq_iff, and_assoc, and_comm, and_left_comm] using h

end IndexedEntry

namespace PageLibraries

open HistoryJson

theorem revisionText_injective : Function.Injective revisionText := fun x y h => by
  have hjson := Json.compact_injective Json.readsBack_escapeAscii (Utf8.encodeText_injective h)
  rw [Json.arr.injEq] at hjson
  exact List.map_injective_iff.mpr IndexedEntry.dump_injective hjson

theorem scopeText_inj {lib : PageLibraries} {root root' id id' : String}
    (h : lib.scopeText root id = lib.scopeText root' id') :
    lib.normcase root = lib.normcase root' ∧ id = id' := by
  have hjson := Json.compact_injective Json.readsBack_escapeAscii (Utf8.encodeText_injective h)
  simpa [IndexedEntry.text_injective.eq_iff] using hjson

end PageLibraries

/-! ## The order of the entries -/

namespace IndexedEntry

instance total_newestFirst : Std.Total newestFirst where
  total x y := by
    rcases lt_trichotomy x.createdAt y.createdAt with h | h | h
    · exact .inr (.inl h)
    · rcases le_total x.id y.id with hid | hid
      · exact .inr (.inr ⟨h, hid⟩)
      · exact .inl (.inr ⟨h.symm, hid⟩)
    · exact .inl (.inl h)

instance trans_newestFirst : IsTrans IndexedEntry newestFirst where
  trans x y z := by
    rintro (hxy | ⟨hxy, hid⟩) (hyz | ⟨hyz, hid'⟩)
    · exact .inl (lt_trans hyz hxy)
    · exact .inl (lt_of_eq_of_lt hyz hxy)
    · exact .inl (lt_of_lt_of_eq hyz hxy)
    · exact .inr ⟨hyz.trans hxy, le_trans hid' hid⟩

end IndexedEntry

/-! ## One page -/

namespace HistoryProject

variable {σ : Type} {lib : PageLibraries} {P : HistoryProject σ}

open Outcome

theorem admitted_eq_ok {limit : Int} {cursor : Option (List Char)} {disk : σ}
    {p : Option HistoryCursor × HexDigest} : P.admitted lib limit cursor disk = .ok p ↔
      (1 ≤ limit ∧ limit ≤ 100) ∧ ∃ id, position cursor = .ok p.1 ∧ P.projectId disk = .ok id ∧
        p.2 = lib.scope P.root id ∧ ∀ c ∈ p.1, c.scope = lib.scope P.root id := by
  unfold admitted
  rw [ite_error_eq_ok]
  simp only [bind_eq_ok, ite_error_eq_ok]
  constructor
  · rintro ⟨hlimit, before, hbefore, id, hid, hscope, h⟩
    cases h
    refine ⟨by omega, id, hbefore, hid, rfl, fun c hc => ?_⟩
    obtain rfl : before = some c := hc
    simpa using hscope
  · rintro ⟨hlimit, id, hbefore, hid, hp, hscope⟩
    refine ⟨by omega, p.1, hbefore, id, hid, ?_, by rw [← hp]⟩
    cases hc : p.1 with
    | none => simp
    | some c => simpa using hscope c hc

/-- The positions at which there is a page. -/
def Reachable (lib : PageLibraries) (entries : List IndexedEntry)
    (position : Option HistoryCursor) : Prop :=
  ∀ c ∈ position, c.revision = lib.revision entries ∧ c.offset < entries.length

theorem pageAt_eq_ok {limit : Int} {position : Option HistoryCursor} {scope : HexDigest}
    {entries : List IndexedEntry} {page : TaskHistoryPage} :
    pageAt lib limit position scope entries = .ok page ↔ Reachable lib entries position ∧
      page.items = (entries.drop (position.elim 0 HistoryCursor.offset)).take limit.toNat ∧
      page.total = entries.length ∧ page.revision = lib.revision entries ∧
      nextCursor scope (lib.revision entries)
        (position.elim 0 HistoryCursor.offset + page.items.length) entries.length =
          .ok page.nextCursor := by
  have hreach : Reachable lib entries position ↔
      ¬ (position.any fun p => p.revision ≠ lib.revision entries) = true ∧
        ¬ (position.isSome ∧ entries.length ≤ position.elim 0 HistoryCursor.offset) := by
    cases position with
    | none => simp [Reachable]
    | some c => simp [Reachable]
  unfold pageAt
  rw [hreach, ite_error_eq_ok, ite_error_eq_ok, and_assoc, bind_eq_ok]
  constructor
  · rintro ⟨hrevision, hoffset, next, hnext, h⟩
    cases h
    exact ⟨hrevision, hoffset, rfl, rfl, rfl, hnext⟩
  · rintro ⟨hrevision, hoffset, hitems, htotal, hrev, hnext⟩
    rw [hitems] at hnext
    refine ⟨hrevision, hoffset, page.nextCursor, hnext, ?_⟩
    rw [← hitems, ← htotal, ← hrev]

theorem page_eq_ok {limit : Int} {cursor : Option (List Char)} {disk : σ}
    {page : TaskHistoryPage} :
    (P.page lib limit cursor disk).1 = .ok page ↔ (1 ≤ limit ∧ limit ≤ 100) ∧
      ∃ before id index entries, position cursor = .ok before ∧ P.projectId disk = .ok id ∧
        (∀ c ∈ before, c.scope = lib.scope P.root id) ∧ (P.readIndex disk).1 = .ok index ∧
        lib.entries index = .ok entries ∧
        pageAt lib limit before (lib.scope P.root id) entries = .ok page := by
  unfold HistoryProject.page
  constructor
  · intro h
    cases hadmitted : P.admitted lib limit cursor disk with
    | error e =>
      rw [hadmitted] at h
      cases h
    | ok p =>
      obtain ⟨before, scope⟩ := p
      rw [hadmitted] at h
      obtain ⟨hlimit, id, hbefore, hid, rfl, hscope⟩ := admitted_eq_ok.mp hadmitted
      obtain ⟨index, hindex, h⟩ := bind_eq_ok.mp h
      obtain ⟨entries, hentries, h⟩ := bind_eq_ok.mp h
      exact ⟨hlimit, before, id, index, entries, hbefore, hid, hscope, hindex, hentries, h⟩
  · rintro ⟨hlimit, before, id, index, entries, hbefore, hid, hscope, hindex, hentries, h⟩
    have hadmitted : P.admitted lib limit cursor disk = .ok (before, lib.scope P.root id) :=
      admitted_eq_ok.mpr ⟨hlimit, id, hbefore, hid, rfl, hscope⟩
    rw [hadmitted]
    exact bind_eq_ok.mpr ⟨index, hindex, bind_eq_ok.mpr ⟨entries, hentries, h⟩⟩

theorem perm_entries {index : TaskIndex} {entries : List IndexedEntry} :
    lib.entries index = .ok entries ↔ ∃ found, index.raw.mapM lib.validated = .ok found ∧
      found.insertionSort IndexedEntry.newestFirst = entries := by
  unfold PageLibraries.entries
  rw [bind_eq_ok]
  simp only [Except.ok.injEq]

theorem length_entries {index : TaskIndex} {entries : List IndexedEntry}
    (h : lib.entries index = .ok entries) : entries.length ≤ sysMaxsize := by
  obtain ⟨found, hfound, rfl⟩ := perm_entries.mp h
  rw [List.length_insertionSort, ← (forall₂_of_mapM_eq_ok hfound).length_eq]
  exact index.small

theorem entries_error {index : TaskIndex} {e : Error} (h : lib.entries index = .error e) :
    ∃ message, e = .conflict message := by
  unfold PageLibraries.entries at h
  cases hfound : index.raw.mapM lib.validated with
  | ok found =>
    rw [hfound] at h
    cases h
  | error e' =>
    rw [hfound] at h
    cases h
    obtain ⟨value, -, hvalue⟩ := exists_of_mapM_eq_error hfound
    unfold PageLibraries.validated at hvalue
    split at hvalue
    · cases hvalue
    · cases hvalue
      exact ⟨_, rfl⟩

/-- The cursor of a page leads behind its entries, and there are entries there. -/
theorem position_next {limit : Int} {before : Option HistoryCursor} {scope : HexDigest}
    {index : TaskIndex} {entries : List IndexedEntry} {page : TaskHistoryPage} {next : List Char}
    (hentries : lib.entries index = .ok entries)
    (h : pageAt lib limit before scope entries = .ok page) (hnext : page.nextCursor = some next) :
    ∃ c, HistoryCursor.ofToken next = .ok c ∧ c.scope = scope ∧ c.revision = lib.revision entries ∧
      c.offset = before.elim 0 HistoryCursor.offset + page.items.length ∧
      c.offset < entries.length := by
  obtain ⟨-, -, -, -, h⟩ := pageAt_eq_ok.mp h
  rw [hnext] at h
  unfold nextCursor at h
  split_ifs at h with hmore hpositive
  · have hsmall := length_entries hentries
    cases h
    exact ⟨_, HistoryCursor.ofToken_token (by dsimp only; omega), rfl, rfl, rfl, hmore⟩
  · cases h

/-- From a position on, the pages show the entries behind it. -/
theorem follow_from {limits : Nat → Int} {disks : Nat → σ} {id : String} {index : TaskIndex}
    {entries : List IndexedEntry} (hlimits : ∀ n, 1 ≤ limits n ∧ limits n ≤ 100)
    (hid : ∀ n, P.projectId (disks n) = .ok id)
    (hindex : ∀ n, (P.readIndex (disks n)).1 = .ok index)
    (hentries : lib.entries index = .ok entries)
    (rounds n : Nat) {cursor : Option (List Char)} {before : Option HistoryCursor}
    (hbefore : position cursor = .ok before) (hscope : ∀ c ∈ before, c.scope = lib.scope P.root id)
    (hreach : Reachable lib entries before)
    (hrounds : entries.length < before.elim 0 HistoryCursor.offset + rounds) :
    P.follow lib limits disks rounds n cursor =
      .ok (some (entries.drop (before.elim 0 HistoryCursor.offset))) := by
  induction rounds generalizing n cursor before with
  | zero =>
    cases before with
    | none => exact absurd hrounds (by simp)
    | some c => exact absurd (hreach c rfl).2 (by simp at hrounds; omega)
  | succ rounds ih =>
    obtain ⟨hlow, hhigh⟩ := hlimits n
    generalize hoffset : before.elim 0 HistoryCursor.offset = offset at hrounds
    have hpositive : 1 ≤ (limits n).toNat := by omega
    have hitems : ((entries.drop offset).take (limits n).toNat).length =
        min (limits n).toNat (entries.length - offset) := by
      rw [List.length_take, List.length_drop]
    by_cases hmore : offset + ((entries.drop offset).take (limits n).toNat).length < entries.length
    · have hfollowing : 1 ≤ offset + ((entries.drop offset).take (limits n).toNat).length := by
        omega
      generalize hc : HistoryCursor.mk (lib.scope P.root id) (lib.revision entries) _ hfollowing = c
      have hpage : (P.page lib (limits n) cursor (disks n)).1 = .ok
          ⟨(entries.drop offset).take (limits n).toNat, entries.length, lib.revision entries,
            some c.token⟩ := by
        refine page_eq_ok.mpr ⟨⟨hlow, hhigh⟩, before, id, index, entries, hbefore, hid n, hscope,
          hindex n, hentries, pageAt_eq_ok.mpr ⟨hreach, by rw [hoffset], rfl, rfl, ?_⟩⟩
        rw [nextCursor, hoffset, if_pos hmore, dif_pos hfollowing, hc]
      have hnext : c.offset = offset + ((entries.drop offset).take (limits n).toNat).length := by
        rw [← hc]
      have htoken : position (some c.token) = .ok (some c) := by
        have hsmall := length_entries hentries
        rw [position, HistoryCursor.ofToken_token (by omega)]
        rfl
      have hrest := ih (n + 1) htoken (by rw [← hc]; rintro _ ⟨⟩; rfl)
        (by rintro _ ⟨⟩; exact ⟨by rw [← hc], by omega⟩) (by simp only [Option.elim_some]; omega)
      have hsplit : (entries.drop offset).take (limits n).toNat ++ entries.drop c.offset =
          entries.drop offset := by
        have hall : c.offset = offset + (limits n).toNat := by omega
        rw [hall, ← List.drop_drop, List.take_append_drop]
      rw [follow, hpage, ok_bind]
      simp only [hrest, ok_bind, Option.elim_some, Option.map_some, hsplit]
    · have hpage : (P.page lib (limits n) cursor (disks n)).1 = .ok
          ⟨(entries.drop offset).take (limits n).toNat, entries.length, lib.revision entries,
            none⟩ := by
        refine page_eq_ok.mpr ⟨⟨hlow, hhigh⟩, before, id, index, entries, hbefore, hid n, hscope,
          hindex n, hentries, pageAt_eq_ok.mpr ⟨hreach, by rw [hoffset], rfl, rfl, ?_⟩⟩
        rw [nextCursor, hoffset, if_neg hmore]
      have hall : (entries.drop offset).take (limits n).toNat = entries.drop offset :=
        List.take_of_length_le (by rw [List.length_drop]; omega)
      rw [follow, hpage, ok_bind, hall]

theorem complete (P : HistoryProject σ) (lib : PageLibraries) : P.Complete lib := by
  intro limits disks id index found hlimits hid hindex hfound
  have hentries : lib.entries index = .ok (found.insertionSort IndexedEntry.newestFirst) :=
    perm_entries.mpr ⟨found, hfound, rfl⟩
  refine ⟨found.length + 1, le_rfl, found.insertionSort IndexedEntry.newestFirst, ?_,
    List.perm_insertionSort _ found, List.pairwise_insertionSort _ found⟩
  have hnone : ∀ c ∈ (none : Option HistoryCursor), False := by simp
  exact follow_from hlimits hid hindex hentries _ 0 rfl (fun c hc => (hnone c hc).elim)
    (fun c hc => (hnone c hc).elim) (by simp)

theorem decodes (P : HistoryProject σ) (lib : PageLibraries) : P.Decodes lib := by
  rintro limit cursor disk page next ⟨hpage, hnext⟩
  obtain ⟨-, before, id, index, entries, hbefore, hid, -, -, hentries, h⟩ := page_eq_ok.mp hpage
  obtain ⟨c, hc, hscope, hrevision, hoffset, -⟩ := position_next hentries h hnext
  obtain ⟨-, -, -, hpageRevision, -⟩ := pageAt_eq_ok.mp h
  exact ⟨before, id, c, hbefore, hid, hc, hscope, by rw [hrevision, hpageRevision], hoffset⟩

/-- A cursor that was issued is accepted where the scope is the same, and compared with the
entries. -/
theorem noticesChange (P : HistoryProject σ) (lib : PageLibraries) : P.NoticesChange lib := by
  rintro limit cursor disk page next limit' disk' id index index' ⟨hpage, hnext⟩ hlimit' hid hid'
    hindex hindex' hne hsha
  obtain ⟨-, before, id₁, index₁, entries, -, hid₁, -, hindex₁, hentries, h⟩ := page_eq_ok.mp hpage
  obtain rfl : id₁ = id := Except.ok.inj (hid₁.symm.trans hid)
  obtain rfl : index₁ = index := Except.ok.inj (hindex₁.symm.trans hindex)
  obtain ⟨c, hc, hscope, hrevision, -, -⟩ := position_next hentries h hnext
  have hposition : position (some next) = .ok (some c) := by
    rw [position, hc]
    rfl
  have hadmitted : P.admitted lib limit' (some next) disk' = .ok (some c, lib.scope P.root id₁) :=
    admitted_eq_ok.mpr ⟨hlimit', id₁, hposition, hid', rfl, by rintro _ ⟨⟩; exact hscope⟩
  have hpage' : (P.page lib limit' (some next) disk').1 = (lib.entries index').bind fun entries =>
      pageAt lib limit' (some c) (lib.scope P.root id₁) entries := by
    unfold HistoryProject.page
    rw [hadmitted]
    simp only [hindex', Except.bind]
  rw [hpage']
  cases hentries' : lib.entries index' with
  | error e =>
    obtain ⟨message, rfl⟩ := entries_error hentries'
    exact ⟨message, rfl⟩
  | ok entries' =>
    have hother : c.revision ≠ lib.revision entries' := fun heq => by
      have htext := hsha entries entries' hentries hentries' (hrevision.symm.trans heq)
      exact hne (by rw [hentries, hentries', PageLibraries.revisionText_injective htext])
    refine ⟨"Task history changed; restart pagination without a cursor", ?_⟩
    show pageAt lib limit' (some c) (lib.scope P.root id₁) entries' = _
    unfold pageAt
    rw [if_pos (by simpa using hother)]

theorem bound (P : HistoryProject σ) (lib : PageLibraries) : P.Bound lib := by
  rintro P' limit cursor disk page next limit' disk' id id' ⟨hpage, hnext⟩ hlimit' hid hid' hroot
    hsha
  obtain ⟨-, before, id₁, index, entries, -, hid₁, -, -, hentries, h⟩ := page_eq_ok.mp hpage
  obtain rfl : id₁ = id := Except.ok.inj (hid₁.symm.trans hid)
  obtain ⟨c, hc, hscope, -, -, -⟩ := position_next hentries h hnext
  have hother : c.scope ≠ lib.scope P'.root id' := fun heq =>
    hroot (PageLibraries.scopeText_inj (hsha (hscope.symm.trans heq))).1
  have hadmitted : P'.admitted lib limit' (some next) disk' =
      .error (.policyDenied "Task history cursor belongs to another project root") := by
    unfold admitted
    rw [if_neg (by omega), position, hc, hid']
    exact if_pos (by simpa using hother)
  unfold HistoryProject.page
  rw [hadmitted]

end HistoryProject

/-! ## The history of a store -/

namespace Store

open HistoryJson Crash

/-- `load_manifest`, of which a history reads the identifier of the project. -/
def loadManifest (s : Store) : Except Error Json :=
  match s.project.manifest with
  | .absent => .error (.notFound "Project is not initialized; run orqalis init")
  | .invalid => .error (.input "Project manifest is not valid JSON/YAML")
  | .legacy _ => .error (.conflict "Project store schema 1 requires migration to schema 2")
  | .unsupported => .error (.conflict "Unsupported project store schema")
  | .current projectId => .ok (object [("project", object [("id", text projectId)])])

/-- The values of index entries, if a list of the interpreter holds them. -/
def taskIndex (isoformat : Time → String) (entries : List IndexEntry) : Except Error TaskIndex :=
  if h : (entries.map (IndexEntry.object isoformat)).length ≤ sysMaxsize then
    .ok ⟨entries.map (IndexEntry.object isoformat), h⟩
  else
    .error (.runtime "MemoryError")

/-- A store as the history reads it: `read_index` goes through the canonical documents, whose
directories stand in the order of their names, and repairs the index. -/
def history (isoformat : Time → String) (root : String) : HistoryProject Store where
  root := root
  loadManifest := loadManifest
  readIndex s := ((scan s.capsuleDirectories).bind (taskIndex isoformat), (rebuildIndex.run s).disk)

theorem rebuildIndex_keeps (s : Store) : Meets rebuildIndex s (fun _ => True)
    (fun _ t => t.project = s.project ∧ t.capsules = s.capsules) := by
  refine meets_bind (meets_bind (meets_read (meets_lift ?_)))
  cases scan s.capsuleDirectories with
  | error e => exact ⟨rfl, rfl⟩
  | ok entries =>
    refine meets_bind (meets_read ?_)
    dsimp only
    split
    · exact meets_pure ⟨rfl, rfl⟩
    · exact meets_write trivial ⟨rfl, rfl⟩

/-- Reading a page changes neither what the next one reads of the index, nor the project. -/
theorem readIndex_page (lib : PageLibraries) (isoformat : Time → String) (root : String)
    (limit : Int) (cursor : Option (List Char)) (s : Store) :
    let P := history isoformat root
    (P.readIndex (P.page lib limit cursor s).2).1 = (P.readIndex s).1 ∧
      P.projectId (P.page lib limit cursor s).2 = P.projectId s := by
  intro P
  have hkept : (P.page lib limit cursor s).2.project = s.project ∧
      (P.page lib limit cursor s).2.capsules = s.capsules := by
    unfold HistoryProject.page
    cases P.admitted lib limit cursor s with
    | error e => exact ⟨rfl, rfl⟩
    | ok p => exact (rebuildIndex_keeps s).2
  obtain ⟨hproject, hcapsules⟩ := hkept
  constructor
  · show (scan (capsuleDirectories _)).bind _ = (scan (capsuleDirectories s)).bind _
    unfold capsuleDirectories
    rw [hcapsules]
  · show (loadManifest _).bind _ = (loadManifest s).bind _
    unfold loadManifest
    rw [hproject]

end Store

/-! ## Pagination -/

/-- **The pages of a history.** Following the cursors shows every entry of an index that stays as
it is once, the newest first, and ends; a cursor is decoded to the position it was issued for; a
changed index is noticed; and another root does not even read its index. -/
theorem history_pages {σ : Type} (lib : PageLibraries) (P : HistoryProject σ) :
    P.Complete lib ∧ P.Decodes lib ∧ P.NoticesChange lib ∧ P.Bound lib :=
  ⟨P.complete lib, P.decodes lib, P.noticesChange lib, P.bound lib⟩

end Orqalis
