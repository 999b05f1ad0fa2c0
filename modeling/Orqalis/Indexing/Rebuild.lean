import Mathlib.Logic.Function.Basic
import Orqalis.Indexing.Terms
import Orqalis.Lib.Crash

/-!
# The files of the index

An index is five files and a manifest with their digests, which is written last. A rebuild that
stops midway leaves some of its files beside the manifest of the last one that came to its end. A
search takes an index whose files have the digests of its manifest, and rebuilds any other first;
so it never answers from a mixture of two.
-/

namespace Orqalis

open Lib Lib.Crash

namespace ProjectIndex

/-! ## Files -/

/-- `_ARTIFACTS` -/
def artifactNames : List String :=
  ["files.jsonl", "symbols.jsonl", "relations.jsonl", "terms.json", "task-index.json"]

/-- How an index is written: the bytes of its terms, which are read as what they were made of,
those of the other files, and the digest of bytes. -/
structure Codec (β : Type) where
  render : IndexTerms → β
  parse : β → Option IndexTerms
  parse_render : ∀ terms, parse (render terms) = some terms
  other : Sources → String → β
  sha256 : β → String

/-- What says that an index is whole: the digest of each of its files. -/
structure IndexManifest where
  schemaVersion : Nat := 1
  indexVersion : String := "lexical-v3"
  projectId : String
  artifacts : List (String × String)
deriving DecidableEq, Repr

/-- The directory of an index: the manifest, if one can be read, and the files. -/
structure Disk (β : Type) where
  manifest : Option IndexManifest := none
  files : String → Option β := fun _ => none

/-- A directory in which a file is written. -/
def Disk.put {β : Type} (name : String) (bytes : β) (d : Disk β) : Disk β :=
  { d with files := Function.update d.files name (some bytes) }

/-- A directory in which the manifest is written. -/
def Disk.mark {β : Type} (manifest : IndexManifest) (d : Disk β) : Disk β :=
  { d with manifest := some manifest }

/-- An index that is built: its documents, each with an identifier of its own, and the bytes of its
files, of which one holds the terms of the documents. -/
structure Built {β : Type} (W : Wording) (C : Codec β) where
  documents : List IndexDocument
  payload : String → β
  unique : (documents.map IndexDocument.id).Nodup
  rendered : payload "terms.json" = C.render (termsOf W documents)

variable {β : Type} {W : Wording} {C : Codec β} (projectId : String)

/-- The bytes of the files. -/
def payloadOf (W : Wording) (C : Codec β) (S : Sources) (documents : List IndexDocument)
    (name : String) : β :=
  if name = "terms.json" then C.render (termsOf W documents) else C.other S name

/-- The index of sources. -/
def build (W : Wording) (C : Codec β) (S : Sources) : Except Error (Built W C) :=
  match h : documentsOf W S with
  | .error e => .error e
  | .ok documents =>
    .ok
      { documents
        payload := payloadOf W C S documents
        unique := documentsOf_unique h
        rendered := if_pos rfl }

/-- The manifest of an index. -/
def Built.manifest (B : Built W C) : IndexManifest where
  projectId
  artifacts := artifactNames.map fun name => (name, C.sha256 (B.payload name))

/-- Write an index: its files, and then its manifest. -/
def write (B : Built W C) : Prog (Disk β) Error Unit := do
  artifactNames.forM fun name => Prog.write (Disk.put name (B.payload name))
  Prog.write (Disk.mark (B.manifest projectId))

variable (W C)

/-- `ProjectIndex.rebuild`. `sources` is what the graph, the memory and the tasks come to. -/
def rebuild (sources : Except Error Sources) : Prog (Disk β) Error Unit := do
  let S ← Prog.lift sources
  let B ← Prog.lift (build W C S)
  write projectId B

/-- Whether the file that is found under a name has the digest of the manifest. -/
def verified (manifest : IndexManifest) (name : String) (found : Option β) : Bool :=
  match manifest.artifacts.lookup name, found with
  | some sha256, some bytes => C.sha256 bytes = sha256
  | _, _ => false

/-- `_load`, where the manifest, each of the files and at last the terms are read from what the
directory is by then. -/
def loadSeen (first : Disk β) (seen : String → Disk β) (last : Disk β) :
    Option (IndexManifest × IndexTerms) := do
  let manifest ← first.manifest
  if manifest.schemaVersion ≠ 1 ∨ manifest.indexVersion ≠ "lexical-v3" ∨
      manifest.projectId ≠ projectId then
    none
  else if artifactNames.all (fun name => verified C manifest name ((seen name).files name)) then do
    let bytes ← last.files "terms.json"
    let terms ← C.parse bytes
    if terms.schemaVersion ≠ 1 ∨ terms.indexVersion ≠ "lexical-v3" then
      none
    else
      return (manifest, terms)
  else
    none

/-- `_load` -/
def load (d : Disk β) : Option (IndexManifest × IndexTerms) :=
  loadSeen C projectId d (fun _ => d) d

/-- `ProjectIndex.search` -/
def search (sources : Except Error Sources) (query : String) (limit : Int) :
    Prog (Disk β) Error (List ProjectIndexMatch) := do
  if Text.strip query.toList = [] then
    Prog.fail (.input "Project index query must not be empty")
  else if limit < 1 ∨ 100 < limit then
    Prog.fail (.input "Project index search limit must be between 1 and 100")
  else if Retrieval.lexicalTerms W.casefold query = [] then
    Prog.fail (.input "Project index query must contain searchable terms")
  else do
    match ← Prog.read (load C projectId) with
    | some loaded => return ranked W query limit.toNat loaded.2
    | none => do
      rebuild W C projectId sources
      match ← Prog.read (load C projectId) with
      | some loaded => return ranked W query limit.toNat loaded.2
      | none => Prog.fail (.conflict "Project index could not be rebuilt")

/-! ## Rebuilds that stop -/

variable {W C}

/-- The directory after rebuilds of which some came to their ends and others stopped: the indexes
that were begun, the last of those that came to their ends, and what is left. A search rebuilds in
the same way. -/
inductive History : List (Built W C) → Option (Built W C) → Disk β → Prop
  | empty : History [] none {}
  | stopped {begun last d t} (B : Built W C) (h : History begun last d)
      (ht : t ∈ ((write projectId B).run d).stops) (hmanifest : t.manifest = d.manifest) :
      History (B :: begun) last t
  | built {begun last d} (B : Built W C) (h : History begun last d) :
      History (B :: begun) (some B) ((write projectId B).run d).disk

/-- No two of the indexes have the digest of one file, unless they have one and the same. -/
def CollisionFree (begun : List (Built W C)) : Prop :=
  ∀ B ∈ begun, ∀ B' ∈ begun, ∀ name ∈ artifactNames,
    C.sha256 (B.payload name) = C.sha256 (B'.payload name) → B.payload name = B'.payload name

/-- A directory whose files are all those of an index. -/
def Whole (B : Built W C) (d : Disk β) : Prop :=
  ∀ name ∈ artifactNames, d.files name = some (B.payload name)

/-- The files of a directory are those of the indexes that were begun. -/
def Filed (begun : List (Built W C)) (d : Disk β) : Prop :=
  ∀ name bytes, d.files name = some bytes → ∃ B ∈ begun, B.payload name = bytes

/-- A directory with the manifest of an index, and with files of those that were begun. -/
structure Marked (begun : List (Built W C)) (last : Option (Built W C)) (d : Disk β) : Prop where
  manifest : d.manifest = last.map (Built.manifest projectId)
  files : Filed begun d
  last : ∀ B, last = some B → B ∈ begun

section Runs

variable {projectId} {begun : List (Built W C)} {last : Option (Built W C)} {d t : Disk β}
  {B : Built W C} {name : String}

theorem Filed.put (h : Filed begun d) (hB : B ∈ begun) (name : String) :
    Filed begun (d.put name (B.payload name)) := by
  intro other bytes hbytes
  by_cases hother : other = name
  · subst hother
    have hsame : some (B.payload other) = some bytes :=
      (Function.update_self other _ d.files).symm.trans hbytes
    exact ⟨B, hB, Option.some.inj hsame⟩
  · exact h other bytes ((Function.update_of_ne hother _ d.files).symm.trans hbytes)

theorem Filed.mono (h : Filed begun d) : Filed (B :: begun) d := fun name bytes hbytes =>
  (h name bytes hbytes).imp fun _ hA => ⟨List.mem_cons_of_mem _ hA.1, hA.2⟩

/-- A written index leaves its files and those from before, and at its end all of its own. -/
theorem write_meets (h : Filed begun d) : Meets (write projectId B) d (Filed (B :: begun))
    fun v t => v = .ok () ∧ Filed (B :: begun) t ∧ t.manifest = some (B.manifest projectId) ∧
      Whole B t := by
  unfold write
  refine meets_bind (meets_forM (fun rest t => Filed (B :: begun) t ∧
    ∀ name ∈ artifactNames, name ∉ rest → t.files name = some (B.payload name))
    ⟨h.mono, fun name hname hout => absurd hname hout⟩ (fun name rest t ht => ?_) fun t ht => ?_)
  · obtain ⟨hfiled, hdone⟩ := ht
    have hput := hfiled.put List.mem_cons_self name
    refine meets_write hput ⟨hput, fun other hother hout => ?_⟩
    by_cases hsame : other = name
    · subst hsame
      exact Function.update_self ..
    · refine (Function.update_of_ne hsame _ t.files).trans (hdone other hother fun hmem => ?_)
      exact (List.mem_cons.mp hmem).elim hsame hout
  · obtain ⟨hfiled, hdone⟩ := ht
    exact meets_write hfiled
      ⟨rfl, hfiled, rfl, fun name hname => hdone name hname List.not_mem_nil⟩

theorem History.marked (h : History projectId begun last d) :
    Marked projectId begun last d := by
  induction h with
  | empty => exact ⟨rfl, fun _ _ h => (by cases h), fun _ h => (by cases h)⟩
  | stopped B h ht hmanifest ih =>
    exact ⟨hmanifest.trans ih.manifest, (write_meets ih.files).1 _ ht,
      fun A hA => List.mem_cons_of_mem _ (ih.last A hA)⟩
  | built B h ih =>
    obtain ⟨-, -, hfiled, hmanifest, -⟩ := write_meets (B := B) ih.files
    refine ⟨hmanifest, hfiled, fun A hA => ?_⟩
    obtain rfl := Option.some.inj hA
    exact List.mem_cons_self

theorem History.whole (h : History projectId begun last d) :
    Whole B ((write projectId B).run d).disk :=
  (write_meets h.marked.files).2.2.2.2

/-- The digest the manifest has of a file. -/
theorem lookup_artifacts (hname : name ∈ artifactNames) :
    (B.manifest projectId).artifacts.lookup name = some (C.sha256 (B.payload name)) := by
  show (artifactNames.map fun name => (name, C.sha256 (B.payload name))).lookup name = _
  generalize artifactNames = names at hname
  induction names with
  | nil => cases hname
  | cons first names ih =>
    rw [List.map_cons, List.lookup_cons]
    by_cases hfirst : name = first
    · subst hfirst
      rw [beq_self_eq_true]
    · rw [beq_eq_false_iff_ne.mpr hfirst]
      exact ih ((List.mem_cons.mp hname).resolve_left hfirst)

/-- A file has the digest of the manifest exactly where it is the file of the index. -/
theorem verified_iff (hmarked : Marked projectId begun last d) (hfree : CollisionFree begun)
    (hlast : last = some B) (hname : name ∈ artifactNames) :
    verified C (B.manifest projectId) name (d.files name) = true ↔
      d.files name = some (B.payload name) := by
  unfold verified
  rw [lookup_artifacts hname]
  cases hfile : d.files name with
  | none => exact iff_of_false Bool.false_ne_true (by simp)
  | some bytes =>
    obtain ⟨A, hA, rfl⟩ := hmarked.files name bytes hfile
    rw [decide_eq_true_eq, Option.some_inj]
    exact ⟨hfree A hA B (hmarked.last B hlast) name hname, congrArg C.sha256⟩

/-- Where the files are those of the last index, it is loaded. -/
theorem load_of_whole (hmarked : Marked projectId begun last d) (hlast : last = some B)
    (hwhole : Whole B d) :
    load C projectId d = some (B.manifest projectId, termsOf W B.documents) := by
  have hmanifest : d.manifest = some (B.manifest projectId) := by
    rw [hmarked.manifest, hlast]
    rfl
  have hall : artifactNames.all (fun name =>
      verified C (B.manifest projectId) name (d.files name)) = true := by
    refine List.all_eq_true.mpr fun name hname => ?_
    unfold verified
    rw [lookup_artifacts hname, hwhole name hname]
    exact decide_eq_true rfl
  unfold load loadSeen
  rw [hmanifest, Option.bind_eq_bind, Option.bind_some, if_neg (by simp [Built.manifest]),
    if_pos hall, hwhole _ (by decide), B.rendered, Option.bind_eq_bind, Option.bind_some,
    C.parse_render]
  rfl

/-- Where they are not, nothing is. -/
theorem load_of_not_whole (hmarked : Marked projectId begun last d)
    (hfree : CollisionFree begun) (hwhole : ∀ B, last = some B → ¬ Whole B d) :
    load C projectId d = none := by
  unfold load loadSeen
  cases hlast : last with
  | none =>
    have hmanifest : d.manifest = none := by
      rw [hmarked.manifest, hlast]
      rfl
    rw [hmanifest]
    rfl
  | some B =>
    have hmanifest : d.manifest = some (B.manifest projectId) := by
      rw [hmarked.manifest, hlast]
      rfl
    have hall : ¬ artifactNames.all (fun name =>
        verified C (B.manifest projectId) name (d.files name)) = true := by
      rw [List.all_eq_true]
      exact fun h => hwhole B hlast fun name hname =>
        (verified_iff hmarked hfree hlast hname).mp (h name hname)
    rw [hmanifest, Option.bind_eq_bind, Option.bind_some, if_neg (by simp [Built.manifest]),
      if_neg hall]

/-- A stop of a rebuild is one more step of the directory's history. -/
theorem History.stop (h : History projectId begun last d)
    (ht : t ∈ ((write projectId B).run d).stops) :
    History projectId (B :: begun) last t ∨ History projectId (B :: begun) (some B) t := by
  have hfiles : Meets (artifactNames.forM fun name =>
      (Prog.write (Disk.put name (B.payload name)) : Prog (Disk β) Error PUnit)) d
      (fun t => t.manifest = d.manifest) fun v _ => v = .ok ⟨⟩ := by
    refine meets_forM (fun _ t => t.manifest = d.manifest) rfl (fun name rest t ht => ?_)
      fun _ _ => rfl
    exact meets_write ht ht
  have hbuilt := History.built B h
  unfold write at ht hbuilt
  rw [Prog.run_bind, Prog.andThen, hfiles.2] at ht hbuilt
  rcases List.mem_append.mp ht with hcut | hend
  · exact .inl (.stopped B h (by rw [write, Prog.run_bind, Prog.andThen, hfiles.2]; exact ht)
      (hfiles.1 t hcut))
  · obtain rfl := List.mem_singleton.mp hend
    exact .inr hbuilt

end Runs

/-! ## What a search answers -/

section Answers

variable {projectId} {begun : List (Built W C)} {last : Option (Built W C)} {d : Disk β}
  {sources : Except Error Sources} {S : Sources} {B : Built W C} {query : String} {limit : Int}

theorem rebuild_ends (h : History projectId begun last d) (hbuild : build W C S = .ok B) :
    Ends (rebuild W C projectId (.ok S)) d (.ok ()) ((write projectId B).run d).disk := by
  have hvalue : ((write projectId B).run d).value = .ok () := (write_meets h.marked.files).2.1
  have hlift : Ends (Prog.lift (build W C S) : Prog (Disk β) Error _) d (.ok B) d := by
    rw [hbuild]
    exact ends_of_quiet rfl
  exact (ends_of_quiet rfl).bind (hlift.bind ⟨hvalue, rfl⟩)

/-- Where rebuilds go on while the files are read, the terms are still those of one index. -/
theorem loadSeen_answers {first t : Disk β} {seen : String → Disk β}
    {loaded : IndexManifest × IndexTerms} (h : History projectId begun last t)
    (hload : loadSeen C projectId first seen t = some loaded) :
    ∃ A ∈ begun, ∀ query limit,
      ranked W query limit loaded.2 = scan W query limit A.documents := by
  unfold loadSeen at hload
  obtain ⟨manifest, -, hload⟩ := Option.bind_eq_some_iff.mp hload
  split_ifs at hload
  obtain ⟨bytes, hbytes, hload⟩ := Option.bind_eq_some_iff.mp hload
  obtain ⟨terms, hparse, hload⟩ := Option.bind_eq_some_iff.mp hload
  split_ifs at hload
  obtain rfl := Option.some.inj hload
  obtain ⟨A, hA, rfl⟩ := h.marked.files _ _ hbytes
  rw [A.rendered, C.parse_render] at hparse
  obtain rfl := Option.some.inj hparse
  exact ⟨A, hA, fun query limit => ranked_eq_scan A.unique⟩

/-- A search answers what a reading of all documents of one index answers: of the last that came
to its end, where all its files are still there, and else of the one it builds itself. -/
theorem search_answers (h : History projectId begun last d) (hbuild : build W C S = .ok B)
    (hfree : CollisionFree (B :: begun)) (hquery : Text.strip query.toList ≠ [])
    (hterms : Retrieval.lexicalTerms W.casefold query ≠ []) (hlimit : 1 ≤ limit ∧ limit ≤ 100) :
    (∃ A, last = some A ∧ Whole A d ∧ Ends (search W C projectId (.ok S) query limit) d
      (.ok (scan W query limit.toNat A.documents)) d) ∨
    ((∀ A, last = some A → ¬ Whole A d) ∧ ∃ t, History projectId (B :: begun) (some B) t ∧
      Whole B t ∧ Ends (search W C projectId (.ok S) query limit) d
        (.ok (scan W query limit.toNat B.documents)) t) := by
  have hfree' : CollisionFree begun := fun A hA A' hA' =>
    hfree A (List.mem_cons_of_mem _ hA) A' (List.mem_cons_of_mem _ hA')
  have hread (d : Disk β) : Ends (Prog.read (load C projectId) : Prog (Disk β) Error _) d
      (.ok (load C projectId d)) d := ends_of_quiet rfl
  unfold search
  rw [if_neg hquery, if_neg (by omega), if_neg hterms]
  by_cases hwhole : ∃ A, last = some A ∧ Whole A d
  · obtain ⟨A, hlast, hA⟩ := hwhole
    refine .inl ⟨A, hlast, hA, (hread d).bind ?_⟩
    rw [load_of_whole h.marked hlast hA, ← ranked_eq_scan A.unique]
    exact ends_of_quiet rfl
  · have hnone : ∀ A, last = some A → ¬ Whole A d := fun A hlast hA => hwhole ⟨A, hlast, hA⟩
    have hbuilt := History.built B h
    refine .inr ⟨hnone, _, hbuilt, h.whole, (hread d).bind ?_⟩
    rw [load_of_not_whole h.marked hfree' hnone]
    refine (rebuild_ends h hbuild).bind ((hread _).bind ?_)
    rw [load_of_whole hbuilt.marked rfl h.whole, ← ranked_eq_scan B.unique]
    exact ends_of_quiet rfl

end Answers

/-- A wording that leaves texts as they are. -/
def sampleWording : Wording where
  casefold := id
  shown := fun _ => ""

/-- Files of which that of the terms holds them and the others nothing; the digest tells whether
there are documents. -/
def sampleCodec : Codec (Option IndexTerms) where
  render := some
  parse := id
  parse_render := fun _ => rfl
  other := fun _ _ => none
  sha256 := fun bytes => if bytes.any fun terms => terms.documents ≠ [] then "1" else "0"

/-- A task whose title has the term "fix". -/
def sampleTask : IndexedTask where
  id := "t"
  runId := "r"
  title := "fix it"
  status := "completed"
  branch := none
  startingCommit := none
  summary := ""

/-- An index of tasks. -/
def sampleBuilt (tasks : List IndexedTask)
    (unique : ((tasks.map taskDocument).map IndexDocument.id).Nodup) :
    Built sampleWording sampleCodec where
  documents := tasks.map taskDocument
  payload := payloadOf sampleWording sampleCodec ⟨[], [], [], tasks⟩ (tasks.map taskDocument)
  unique
  rendered := if_pos rfl

/-- The index before there is a task, and the one with it. -/
def sampleBefore : Built sampleWording sampleCodec := sampleBuilt [] List.nodup_nil

def sampleAfter : Built sampleWording sampleCodec := sampleBuilt [sampleTask] (by decide)

theorem sample_collisionFree : CollisionFree [sampleAfter, sampleAfter, sampleBefore] := by
  have hne : ∀ name ∈ artifactNames,
      sampleCodec.sha256 (sampleAfter.payload name) =
        sampleCodec.sha256 (sampleBefore.payload name) →
      sampleAfter.payload name = sampleBefore.payload name := by
    decide
  intro B hB B' hB' name hname hsame
  have hone : ∀ {A : Built sampleWording sampleCodec},
      A ∈ [sampleAfter, sampleAfter, sampleBefore] → A = sampleAfter ∨ A = sampleBefore := by
    intro A hA
    simpa using hA
  rcases hone hB with rfl | rfl <;> rcases hone hB' with rfl | rfl
  · rfl
  · exact hne name hname hsame
  · exact (hne name hname hsame.symm).symm
  · rfl

/-- The directory of the index without the task. -/
def sampleBuiltDisk : Disk (Option IndexTerms) := ((write "p" sampleBefore).run {}).disk

/-- The next rebuild stopped when the terms were written. -/
def sampleStopped : Disk (Option IndexTerms) :=
  ((write "p" sampleAfter).run sampleBuiltDisk).stops.getD 3 sampleBuiltDisk

theorem sample_history :
    History "p" [sampleAfter, sampleBefore] (some sampleBefore) sampleStopped :=
  .stopped sampleAfter (.built sampleBefore .empty) (List.mem_of_getElem? (i := 3) rfl) rfl

/-- A search finds the task in an index that it builds. -/
theorem sample_search_answers : ∃ t,
    History "p" [sampleAfter, sampleAfter, sampleBefore] (some sampleAfter) t ∧
    Whole sampleAfter t ∧
    Ends (search sampleWording sampleCodec "p" (.ok ⟨[], [], [], [sampleTask]⟩) "fix" 10)
      sampleStopped (.ok [⟨taskDocument sampleTask, 18, ["fix"]⟩]) t := by
  have hscan : scan sampleWording "fix" 10 [taskDocument sampleTask] =
      [⟨taskDocument sampleTask, 18, ["fix"]⟩] := by
    decide
  have hbuild : build sampleWording sampleCodec ⟨[], [], [], [sampleTask]⟩ = .ok sampleAfter := rfl
  have hquery : Text.strip "fix".toList ≠ [] := by decide
  have hterms : Retrieval.lexicalTerms sampleWording.casefold "fix" ≠ [] := by decide
  have hlimit : (1 : Int) ≤ 10 ∧ (10 : Int) ≤ 100 := by decide
  rcases search_answers sample_history hbuild sample_collisionFree hquery hterms hlimit with
    ⟨A, hlast, hwhole, -⟩ | ⟨-, t, ht, hwhole, hends⟩
  · -- The terms are those of the rebuild that stopped.
    obtain rfl := Option.some.inj hlast
    exact absurd (hwhole "terms.json" (by decide)) (by decide)
  · refine ⟨t, ht, hwhole, ?_⟩
    rw [← hscan]
    exact hends

end ProjectIndex

end Orqalis
