import Orqalis.Domain.Base
import Orqalis.Lib.Text
import Mathlib.Data.List.Dedup
import Mathlib.Data.List.Infix
import Mathlib.Data.List.Sort

/-!
# Curated memory records

A record of curated memory and the file it is kept in: front matter that holds every field
but the content, a heading with the title, and the content. What the writer makes of a
record is `frontmatter`, what the reader makes of a file is `parseRecord`.

The two drift apart on the content only. `parseRecord_frontmatter` says by how much: the
reader finds `reread title content`, and takes the file for a record unless that is empty.
`reread_eq_self` and `reread_eq_nil` say when nothing is lost and when nothing is left.

Text is the list of its characters. Front matter that no record writes (numbers given as
strings, a missing time of verification) is refused, where the model library would convert
some of it.
-/

namespace Orqalis

open Lib Lib.Text

/-- `^MEM-[0-9]{8}-[0-9]{4}$` -/
def isMemoryId (s : List Char) : Bool :=
  let rest := s.drop 4
  "MEM-".toList <+: s && rest.length = 13 && (rest.take 8).all Char.isDigit &&
    (rest.drop 8).head? = some '-' && (rest.drop 9).all Char.isDigit

/-- The identity of a memory record. -/
structure MemoryId where
  text : List Char
  matched : isMemoryId text
deriving DecidableEq

namespace MemoryId

/-- The identity a text spells. -/
def ofText? (s : List Char) : Option MemoryId :=
  if h : isMemoryId s then some ⟨s, h⟩ else none

@[simp] theorem ofText?_text (i : MemoryId) : ofText? i.text = some i := dif_pos i.matched

end MemoryId

inductive MemoryCategory
  | product
  | architecture
  | technology
  | conventions
  | domain
  | workflows
  | testing
  | pitfalls
  | module
  | decision
deriving DecidableEq, Repr

namespace MemoryCategory

/-- The text of a category. -/
def text : MemoryCategory → List Char
  | product => "product".toList
  | architecture => "architecture".toList
  | technology => "technology".toList
  | conventions => "conventions".toList
  | domain => "domain".toList
  | workflows => "workflows".toList
  | testing => "testing".toList
  | pitfalls => "pitfalls".toList
  | module => "module".toList
  | decision => "decision".toList

/-- The category a text names. -/
def ofText? (s : List Char) : Option MemoryCategory :=
  [product, architecture, technology, conventions, domain, workflows, testing, pitfalls, module,
    decision].find? fun c => c.text = s

@[simp] theorem ofText?_text (c : MemoryCategory) : ofText? c.text = some c := by
  cases c <;> rfl

end MemoryCategory

inductive ProvenanceType
  | repository
  | task
  | user
deriving DecidableEq, Repr

namespace ProvenanceType

/-- The text of a provenance. -/
def text : ProvenanceType → List Char
  | repository => "repository".toList
  | task => "task".toList
  | user => "user".toList

/-- The provenance a text names. -/
def ofText? (s : List Char) : Option ProvenanceType :=
  [repository, task, user].find? fun t => t.text = s

@[simp] theorem ofText?_text (t : ProvenanceType) : ofText? t.text = some t := by
  cases t <;> rfl

end ProvenanceType

/-! ## Provenance -/

/-- The device names no path component may have before its first dot. -/
def deviceNames : List (List Char) :=
  ["con", "prn", "aux", "nul", "com1", "com2", "com3", "com4", "com5", "com6", "com7", "com8",
    "com9", "lpt1", "lpt2", "lpt3", "lpt4", "lpt5", "lpt6", "lpt7", "lpt8", "lpt9"].map
    String.toList

/-- A path component that `validate_relative_path` lets pass. -/
def safePart (part : List Char) : Bool :=
  let lowered := part.map Char.toLower
  lowered ∉ ["".toList, ".".toList, "..".toList, ".git".toList] &&
    part.getLast? ∉ [some '.', some ' '] && lowered.takeWhile (· ≠ '.') ∉ deviceNames

/-- `validate_relative_path`: a repository-relative POSIX path. -/
def validateRelativePath (path : List Char) : Bool :=
  path.head? ≠ some '/' && '\\' ∉ path && ':' ∉ path && path.all (fun c => 32 ≤ c.toNat) &&
    (path.splitOn '/').all safePart

/-- `[0-9a-f]{64}` -/
def isHexDigest (s : List Char) : Bool :=
  s.length = 64 && s.all fun c => c.isDigit || ('a' ≤ c && c ≤ 'f')

/-- A mapping of texts, in the order of its keys. -/
structure Hashes where
  entries : List (List Char × List Char)
  sorted : (entries.map Prod.fst).Pairwise (· < ·)
deriving DecidableEq

namespace Hashes

/-- The mapping of some keys. -/
def ofKeys (keys : List (List Char)) (value : List Char → List Char) : Hashes where
  entries := (keys.dedup.insertionSort (· ≤ ·)).map fun k => (k, value k)
  sorted := by
    have hsorted := List.pairwise_insertionSort (· ≤ ·) keys.dedup
    have hnodup := (List.perm_insertionSort (· ≤ ·) keys.dedup).nodup_iff.mpr keys.nodup_dedup
    simp only [List.map_map, Function.comp_def, List.map_id']
    exact (hsorted.and hnodup).imp fun h => lt_of_le_of_ne h.1 h.2

/-- The mapping some pairs give: the last pair of a key counts. -/
def ofPairs (pairs : List (List Char × List Char)) : Hashes :=
  ofKeys (pairs.map Prod.fst) fun k =>
    ((pairs.reverse.find? fun e => e.1 = k).map Prod.snd).getD []

theorem mem_ofKeys {keys : List (List Char)} {value : List Char → List Char}
    {e : List Char × List Char} (h : e ∈ (ofKeys keys value).entries) :
    e.1 ∈ keys ∧ e.2 = value e.1 := by
  obtain ⟨k, hk, rfl⟩ := List.mem_map.mp h
  exact ⟨List.mem_dedup.mp ((List.mem_insertionSort _).mp hk), rfl⟩

/-- A mapping is what its own entries give. -/
@[simp] theorem ofPairs_entries (h : Hashes) : ofPairs h.entries = h := by
  obtain ⟨entries, hsorted⟩ := h
  have hnodup : (entries.map Prod.fst).Nodup := hsorted.imp fun h => ne_of_lt h
  have hkeys : (entries.map Prod.fst).dedup.insertionSort (· ≤ ·) = entries.map Prod.fst := by
    rw [hnodup.dedup]
    exact (hsorted.imp fun h => le_of_lt h).insertionSort_eq
  have hfind : ∀ e ∈ entries, entries.reverse.find? (fun d => d.1 = e.1) = some e := by
    intro e he
    have hsome : ∃ d, entries.reverse.find? (fun d => d.1 = e.1) = some d := by
      rw [← Option.isSome_iff_exists, List.find?_isSome]
      exact ⟨e, by simpa using he, by simp⟩
    obtain ⟨d, hd⟩ := hsome
    have hkey : d.1 = e.1 := by simpa using List.find?_some hd
    have hmem : d ∈ entries := by simpa using List.mem_of_find?_eq_some hd
    rw [hd, List.inj_on_of_nodup_map hnodup hmem he hkey]
  simp only [ofPairs, ofKeys, Hashes.mk.injEq, hkeys, List.map_map]
  calc entries.map _ = entries.map id := by
        refine List.map_congr_left fun e he => ?_
        simp [hfind e he]
    _ = entries := List.map_id entries

end Hashes

structure MemoryProvenance where
  type : ProvenanceType
  paths : List (List Char)
  contentHashes : Hashes
  relative : ∀ path ∈ paths, validateRelativePath path
  declared : ∀ e ∈ contentHashes.entries, e.1 ∈ paths ∧ isHexDigest e.2
deriving DecidableEq

/-! ## Records -/

/-- The spellings of the numbers from zero to one. -/
def spellsUnit (s : List Char) : Bool :=
  s ∈ ["1.0".toList, "-0.0".toList] || "0.".toList <+: s ||
    (s.head? ≠ some '-' && "e-".toList <:+: s)

/-- A confidence, by its spelling. -/
structure Confidence where
  number : Json.Number
  bounded : spellsUnit number.spelling
deriving DecidableEq

/-- Full confidence, the default. -/
def Confidence.full : Confidence := ⟨⟨"1.0".toList, by decide, by decide⟩, by decide⟩

/-- The pattern of an ISO time with its offset; every class of characters is a letter. -/
def timePattern : List Char := "dddd-dd-ddTdd:dd:dd".toList

/-- The offset of a time. -/
def isOffset : List Char → Bool
  | ['Z'] => true
  | [sign, a, b, ':', c, d] => (sign = '+' || sign = '-') && [a, b, c, d].all Char.isDigit
  | _ => false

/-- An ISO time with its offset from UTC, with or without a fraction of a second. -/
def isAwareTime (s : List Char) : Bool :=
  let matched := (s.zip timePattern).all fun e => if e.2 = 'd' then e.1.isDigit else e.1 = e.2
  let rest := s.drop timePattern.length
  timePattern.length ≤ s.length && matched &&
    (match rest with
      | '.' :: rest =>
        !(rest.takeWhile Char.isDigit).isEmpty && isOffset (rest.dropWhile Char.isDigit)
      | rest => isOffset rest)

/-- A time with its offset, by its text. -/
structure AwareTime where
  text : List Char
  aware : isAwareTime text
deriving DecidableEq

structure DurableMemoryRecord where
  id : MemoryId
  category : MemoryCategory
  title : List Char
  content : List Char
  source : MemoryProvenance
  verifiedCommit : Option (List Char)
  introducedByTask : Option (List Char)
  confidence : Confidence
  lastVerifiedAt : AwareTime
  supersedes : Option MemoryId
  summary : Option (List Char)
  references : List MemoryId
  titled : title ≠ [] ∧ title.length ≤ 300
  filled : content ≠ []
  summarized : ∀ s ∈ summary, s.length ≤ 400
  referenced : references.length ≤ 32 ∧ references.Nodup ∧ id ∉ references
deriving DecidableEq

/-! ## Documents -/

/-- The value of a member; the last one of a key counts. -/
def member (ms : List (List Char × Json)) (k : String) : Option Json :=
  (ms.reverse.find? fun m => m.1 = k.toList).map Prod.snd

/-- Whether a document has no members but the named ones. -/
def membersAmong (ms : List (List Char × Json)) (ks : List String) : Bool :=
  ms.all fun m => m.1 ∈ ks.map String.toList

/-- A text. -/
def textValue : Json → Option (List Char)
  | .str s => some s
  | _ => none

/-- A text or nothing, as an optional field has it. -/
def optionalText : Option Json → Option (Option (List Char))
  | none => some none
  | some .null => some none
  | some (.str s) => some (some s)
  | some _ => none

/-- The items of an array; without the field there is none. -/
def items : Option Json → Option (List Json)
  | none => some []
  | some (.arr vs) => some vs
  | some _ => none

/-- The members of an object; without the field there is none. -/
def members : Option Json → Option (List (List Char × Json))
  | none => some []
  | some (.obj ms) => some ms
  | some _ => none

/-- What an optional field is written as. -/
def optional : Option (List Char) → Json
  | none => .null
  | some s => .str s

@[simp] theorem textValue_str (s : List Char) : textValue (.str s) = some s := rfl

@[simp] theorem optionalText_optional (s : Option (List Char)) :
    optionalText (some (optional s)) = some s := by
  cases s <;> rfl

theorem mapM_map_some {α β : Type} {f : α → β} {g : β → Option α} (h : ∀ a, g (f a) = some a)
    (l : List α) : (l.map f).mapM g = some l := by
  induction l with
  | nil => rfl
  | cons a l ih => simp [List.mapM_cons, h, ih]

namespace MemoryProvenance

/-- The fields of a provenance, in the order of their keys. -/
def fields (p : MemoryProvenance) : List (List Char × Json) :=
  [("content_hashes".toList, .obj (p.contentHashes.entries.map fun e => (e.1, .str e.2))),
    ("paths".toList, .arr (p.paths.map .str)),
    ("type".toList, .str p.type.text)]

/-- The provenance a document describes. -/
def validate : Json → Option MemoryProvenance
  | .obj ms => do
    guard (membersAmong ms ["content_hashes", "paths", "type"])
    let type ← (member ms "type" >>= textValue) >>= ProvenanceType.ofText?
    let paths ← items (member ms "paths") >>= fun vs => vs.mapM textValue
    let pairs ← members (member ms "content_hashes") >>= fun es =>
      es.mapM fun e => (textValue e.2).map fun digest => (e.1, digest)
    let contentHashes := Hashes.ofPairs pairs
    if h : (∀ path ∈ paths, validateRelativePath path) ∧
        ∀ e ∈ contentHashes.entries, e.1 ∈ paths ∧ isHexDigest e.2 then
      some ⟨type, paths, contentHashes, h.1, h.2⟩
    else none
  | _ => none

theorem validate_fields (p : MemoryProvenance) : validate (.obj p.fields) = some p := by
  have hkeys : membersAmong p.fields ["content_hashes", "paths", "type"] = true := rfl
  have htype : member p.fields "type" = some (.str p.type.text) := rfl
  have hpaths : member p.fields "paths" = some (.arr (p.paths.map .str)) := rfl
  have hhashes : member p.fields "content_hashes" =
      some (.obj (p.contentHashes.entries.map fun e => (e.1, .str e.2))) := rfl
  have hitems : (p.paths.map Json.str).mapM textValue = some p.paths :=
    mapM_map_some (f := Json.str) (fun _ => rfl) _
  have hpairs : (p.contentHashes.entries.map fun e => (e.1, Json.str e.2)).mapM
      (fun e : List Char × Json => (textValue e.2).map fun digest => (e.1, digest)) =
      some p.contentHashes.entries :=
    mapM_map_some (f := fun e : List Char × List Char => (e.1, Json.str e.2)) (fun _ => rfl) _
  have hvalid : (∀ path ∈ p.paths, validateRelativePath path) ∧
      ∀ e ∈ p.contentHashes.entries, e.1 ∈ p.paths ∧ isHexDigest e.2 := ⟨p.relative, p.declared⟩
  simp only [validate, htype, hpaths, hhashes, hkeys, items, members, textValue_str,
    Option.bind_eq_bind, Option.bind_some, hitems, hpairs, ProvenanceType.ofText?_text,
    Hashes.ofPairs_entries, dif_pos hvalid, guard, if_true, Option.pure_def]

end MemoryProvenance

namespace DurableMemoryRecord

/-- The fields of a record but the content, in the order of their keys. -/
def metadata (r : DurableMemoryRecord) : List (List Char × Json) :=
  [("category".toList, .str r.category.text),
    ("confidence".toList, .num r.confidence.number),
    ("id".toList, .str r.id.text),
    ("introduced_by_task".toList, optional r.introducedByTask),
    ("last_verified_at".toList, .str r.lastVerifiedAt.text),
    ("references".toList, .arr (r.references.map fun i => .str i.text)),
    ("schema_version".toList, .num ⟨['1'], by decide, by decide⟩),
    ("source".toList, .obj r.source.fields),
    ("summary".toList, optional r.summary),
    ("supersedes".toList, optional (r.supersedes.map MemoryId.text)),
    ("title".toList, .str r.title),
    ("verified_commit".toList, optional r.verifiedCommit)]

/-- The fields a record may have. -/
def fieldNames : List String :=
  ["schema_version", "id", "category", "title", "content", "source", "verified_commit",
    "introduced_by_task", "confidence", "last_verified_at", "supersedes", "summary", "references"]

/-- A memory identity that a document spells. -/
def identity (v : Json) : Option MemoryId := textValue v >>= MemoryId.ofText?

/-- The identity that an optional text spells. -/
def optionalIdentity : Option (List Char) → Option (Option MemoryId)
  | none => some none
  | some s => (MemoryId.ofText? s).map some

theorem optionalIdentity_text (i : Option MemoryId) :
    optionalIdentity (i.map MemoryId.text) = some i := by
  cases i with
  | none => rfl
  | some i => simp [optionalIdentity]

/-- The confidence a field gives; without the field it is full. -/
def confidenceOf : Option Json → Option Confidence
  | none => some .full
  | some (.num n) => if h : spellsUnit n.spelling then some ⟨n, h⟩ else none
  | some _ => none

/-- The schema version a field gives has to be the first. -/
def firstSchema : Option Json → Bool
  | none => true
  | some (.num n) => n.spelling = ['1']
  | some _ => false

/-- `model_validate` of front matter and the content that belongs to it. -/
def validate (ms : List (List Char × Json)) (content : List Char) :
    Option DurableMemoryRecord := do
  guard (membersAmong ms fieldNames && firstSchema (member ms "schema_version"))
  let id ← member ms "id" >>= identity
  let category ← (member ms "category" >>= textValue) >>= MemoryCategory.ofText?
  let title ← member ms "title" >>= textValue
  let source ← member ms "source" >>= MemoryProvenance.validate
  let verifiedCommit ← optionalText (member ms "verified_commit")
  let introducedByTask ← optionalText (member ms "introduced_by_task")
  let confidence ← confidenceOf (member ms "confidence")
  let verifiedAt ← member ms "last_verified_at" >>= textValue
  let supersedes ← optionalText (member ms "supersedes") >>= optionalIdentity
  let summary ← optionalText (member ms "summary")
  let references ← items (member ms "references") >>= fun vs => vs.mapM identity
  if haware : isAwareTime verifiedAt then
    if htitled : title ≠ [] ∧ title.length ≤ 300 then
      if hfilled : content ≠ [] then
        if hsummarized : ∀ s ∈ summary, s.length ≤ 400 then
          if hreferenced : references.length ≤ 32 ∧ references.Nodup ∧ id ∉ references then
            some ⟨id, category, title, content, source, verifiedCommit, introducedByTask,
              confidence, ⟨verifiedAt, haware⟩, supersedes, summary, references, htitled, hfilled,
              hsummarized, hreferenced⟩
          else none
        else none
      else none
    else none
  else none

/-- A record with another content. -/
def withContent (r : DurableMemoryRecord) (content : List Char) (h : content ≠ []) :
    DurableMemoryRecord :=
  { r with content := content, filled := h }

/-- The fields of a record and a content give the record with that content. -/
theorem validate_metadata (r : DurableMemoryRecord) (content : List Char) :
    validate r.metadata content =
      if h : content ≠ [] then some (r.withContent content h) else none := by
  have hkeys : membersAmong r.metadata fieldNames = true := rfl
  have hschema : firstSchema (member r.metadata "schema_version") = true := rfl
  have hid : member r.metadata "id" = some (.str r.id.text) := rfl
  have hcategory : member r.metadata "category" = some (.str r.category.text) := rfl
  have htitle : member r.metadata "title" = some (.str r.title) := rfl
  have hsource : member r.metadata "source" = some (.obj r.source.fields) := rfl
  have hcommit : member r.metadata "verified_commit" = some (optional r.verifiedCommit) := rfl
  have htask : member r.metadata "introduced_by_task" = some (optional r.introducedByTask) := rfl
  have hconfidence : confidenceOf (member r.metadata "confidence") = some r.confidence := by
    show confidenceOf (some (.num r.confidence.number)) = _
    exact dif_pos r.confidence.bounded
  have htime : member r.metadata "last_verified_at" = some (.str r.lastVerifiedAt.text) := rfl
  have hsupersedes : member r.metadata "supersedes" =
      some (optional (r.supersedes.map MemoryId.text)) := rfl
  have hsummary : member r.metadata "summary" = some (optional r.summary) := rfl
  have hreferences : member r.metadata "references" =
      some (.arr (r.references.map fun i => .str i.text)) := rfl
  have hids : (r.references.map fun i => Json.str i.text).mapM identity = some r.references :=
    mapM_map_some (f := fun i : MemoryId => Json.str i.text) (fun i => i.ofText?_text) _
  have hidentity : identity (.str r.id.text) = some r.id := r.id.ofText?_text
  simp only [validate, hkeys, hschema, hid, hcategory, htitle, hsource, hcommit, htask,
    hconfidence, htime, hsupersedes, hsummary, hreferences, hids, hidentity, guard, items,
    textValue_str, optionalText_optional, optionalIdentity_text, Option.bind_eq_bind,
    Option.bind_some, Bool.and_self, MemoryCategory.ofText?_text,
    MemoryProvenance.validate_fields, if_true, Option.pure_def, dif_pos r.lastVerifiedAt.aware,
    dif_pos r.titled, dif_pos r.summarized, dif_pos r.referenced]
  rfl

end DurableMemoryRecord

end Orqalis
