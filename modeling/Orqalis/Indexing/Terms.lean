import Mathlib.Data.Prod.Lex
import Mathlib.Order.Lex
import Orqalis.Domain.Base
import Orqalis.Graph.Models
import Orqalis.Lib.Grouping
import Orqalis.Lib.Outcome
import Orqalis.Lib.Text
import Orqalis.Memory.Records

/-!
# The lexical index

A document has the terms of its texts: its words, and the parts of those that are made of several.
The index lists for each term the documents that have it. A search looks up the terms of a query,
weighs the documents it finds by where the terms occur, and answers the first of them.

What a search finds by its lists is what a reading of all documents finds (`ranked_eq_scan`).
-/

namespace Orqalis

open Lib Lib.Grouping

/-! ## Terms -/

namespace Retrieval

/-- A character of a word. -/
def wordChar (c : Char) : Bool := c.isLower || c.isDigit

/-- The words of a text, after the characters of one that is under way, in reverse: letters and
digits, and single underscores between them. -/
def wordsFrom (word : List Char) : List Char → List (List Char)
  | [] => if word = [] then [] else [word.reverse]
  | c :: cs =>
    if wordChar c then wordsFrom (c :: word) cs
    else if c = '_' ∧ word ≠ [] ∧ cs.head?.any wordChar then wordsFrom (c :: word) cs
    else if word = [] then wordsFrom [] cs
    else word.reverse :: wordsFrom [] cs

/-- `_WORDS.findall` -/
def words (text : List Char) : List (List Char) := wordsFrom [] text

/-- Whether a part of a CamelCase word begins at a character. -/
def partBegins (before : Option Char) (c : Char) (after : Option Char) : Bool :=
  (before.any fun b => wordChar b && c.isUpper) ||
    before.any fun b => b.isUpper && c.isUpper && after.any Char.isLower

/-- Whether a part of a CamelCase word begins somewhere. -/
def camel (before : Option Char) : List Char → Bool
  | [] => false
  | c :: cs => partBegins before c cs.head? || camel (some c) cs

/-- A text with a blank before each part of a CamelCase word. -/
def spaced (before : Option Char) : List Char → List Char
  | [] => []
  | c :: cs =>
    if partBegins before c cs.head? then ' ' :: c :: spaced (some c) cs
    else c :: spaced (some c) cs

/-- A text with blanks for its underscores. -/
def unscored (text : List Char) : List Char := text.map fun c => if c = '_' then ' ' else c

/-- The terms of words: those of two characters or more, each once. -/
def terms (found : List (List Char)) : List String :=
  (distinct (found.filter fun word => 2 ≤ word.length)).map String.ofList

/-- `lexical_terms`. `casefold` is the folding of Python. -/
def lexicalTerms (casefold : String → String) (value : String) : List String :=
  let full := words (casefold value).toList
  if '_' ∉ value.toList ∧ camel none value.toList = false then
    terms full
  else
    let parts := words (casefold (String.ofList (unscored (spaced none value.toList)))).toList
    terms (full ++ parts)

theorem spaced_of_not_camel {before : Option Char} {text : List Char}
    (h : camel before text = false) : spaced before text = text := by
  induction text generalizing before with
  | nil => rfl
  | cons c cs ih =>
    obtain ⟨hfirst, hrest⟩ := Bool.or_eq_false_iff.mp h
    unfold spaced
    rw [hfirst, if_neg Bool.false_ne_true, ih hrest]

theorem unscored_of_not_mem {text : List Char} (h : '_' ∉ text) : unscored text = text := by
  unfold unscored
  conv_rhs => rw [← List.map_id text]
  refine List.map_congr_left fun c hc => if_neg ?_
  rintro rfl
  exact h hc

/-- The short way gives the terms of the long one. -/
theorem lexicalTerms_eq (casefold : String → String) (value : String) :
    lexicalTerms casefold value = terms (words (casefold value).toList ++
      words (casefold (String.ofList (unscored (spaced none value.toList)))).toList) := by
  unfold lexicalTerms
  split_ifs with h
  · rw [spaced_of_not_camel h.2, unscored_of_not_mem h.1, String.ofList_toList]
    unfold terms
    rw [List.filter_append, distinct_append_of_subset (List.Subset.refl _)]
  · rfl

theorem nodup_lexicalTerms (casefold : String → String) (value : String) :
    (lexicalTerms casefold value).Nodup := by
  rw [lexicalTerms_eq]
  exact (nodup_distinct _).map fun _ _ h => String.ofList_injective h

end Retrieval

namespace ProjectIndex

open Retrieval

/-! ## Documents -/

/-- What the index takes of texts: their folding, and the text of a confidence. -/
structure Wording where
  casefold : String → String
  shown : Confidence → String

/-- The kinds of documents. -/
inductive IndexRecordKind
  | file
  | symbol
  | reference
  | memory
  | task
deriving DecidableEq, Repr

/-- A value of a document's metadata; a number is its text. -/
inductive IndexMetadataValue
  | null
  | text (shown : String)
  | texts (l : List String)
deriving DecidableEq, Repr

/-- A text that can be absent. -/
def IndexMetadataValue.ofOption : Option String → IndexMetadataValue
  | some s => .text s
  | none => .null

/-- What the index says of one thing. -/
structure IndexDocument where
  id : String
  kind : IndexRecordKind
  title : String
  path : Option String
  summary : String
  metadata : List (String × IndexMetadataValue)
deriving DecidableEq, Repr

/-- A task, as the index of the capsules has it, and the summary it ended with. -/
structure IndexedTask where
  id : String
  runId : String
  title : String
  status : String
  branch : Option String
  startingCommit : Option String
  summary : String
deriving DecidableEq, Repr

/-- What an index is made of. -/
structure Sources where
  nodes : List GraphNode
  edges : List GraphEdge
  memory : List DurableMemoryRecord
  tasks : List IndexedTask

/-- `_metadata_text` -/
def metadataText : Option GraphMetadataValue → String
  | some (.text s) => s
  | _ => ""

/-- Texts with a blank between them, without the empty ones. -/
def joined (values : List String) : String := " ".intercalate (values.filter fun v => v ≠ "")

/-- The document of a file. -/
def fileDocument (node : GraphNode) : IndexDocument where
  id := s!"repository:file:{node.id}"
  kind := .file
  title := node.name
  path := node.filePath
  summary := joined [node.language.getD "", metadataText (node.metadata.lookup "role")]
  metadata := [("node_id", .text node.id), ("node_kind", .text node.kind),
    ("language", .ofOption node.language), ("source_hash", .ofOption node.sourceHash)]

/-- The document of a symbol. -/
def symbolDocument (node : GraphNode) : IndexDocument where
  id := s!"repository:symbol:{node.id}"
  kind := if node.kind = GraphNodeKind.reference.value then .reference else .symbol
  title := node.name
  path := node.filePath
  summary := joined [node.kind, metadataText (node.metadata.lookup "qualified_name"),
    node.language.getD ""]
  metadata := [("node_id", .text node.id), ("node_kind", .text node.kind),
    ("language", .ofOption node.language),
    ("line_start", .ofOption (node.lineStart.map toString)),
    ("line_end", .ofOption (node.lineEnd.map toString))]

/-- The longest summary of a document. -/
def maxSummaryChars : Nat := 16000

variable (W : Wording)

/-- The document of a record of the memory. -/
def memoryDocument (record : DurableMemoryRecord) : IndexDocument :=
  let id := String.ofList record.id.text
  { id := s!"memory:{id}"
    kind := .memory
    title := String.ofList record.title
    path := some s!".orqalis/memory/records/{id}.md"
    summary := String.ofList (record.content.take maxSummaryChars)
    metadata := [("memory_id", .text id), ("category", .text (String.ofList record.category.text)),
      ("source_paths", .texts (record.source.paths.map String.ofList)),
      ("introduced_by_task", .ofOption (record.introducedByTask.map String.ofList)),
      ("confidence", .text (W.shown record.confidence))] }

/-- The document of a task. -/
def taskDocument (task : IndexedTask) : IndexDocument where
  id := s!"task:{task.id}"
  kind := .task
  title := task.title
  path := some s!".orqalis/tasks/{task.id}"
  summary := task.summary
  metadata := [("task_id", .text task.id), ("run_id", .text task.runId),
    ("status", .text task.status), ("branch", .ofOption task.branch),
    ("starting_commit", .ofOption task.startingCommit)]

/-- `_documents` -/
def documentsOf (S : Sources) : Except Error (List IndexDocument) :=
  let files := S.nodes.filter fun node => node.kind = GraphNodeKind.file.value
  let symbols := S.nodes.filter fun node => node.kind ≠ GraphNodeKind.file.value
  let documents := files.map fileDocument ++ symbols.map symbolDocument ++
    S.memory.map (memoryDocument W) ++ S.tasks.map taskDocument
  let result := documents.insertionSort fun a b => a.id ≤ b.id
  if (result.map IndexDocument.id).Nodup then
    .ok result
  else
    .error (.conflict "Project index contains duplicate document identifiers")

theorem documentsOf_unique {W} {S : Sources} {documents : List IndexDocument}
    (h : documentsOf W S = .ok documents) : (documents.map IndexDocument.id).Nodup := by
  obtain ⟨hunique, h⟩ := Outcome.ite_ok_eq_ok.mp h
  cases h
  exact hunique

/-! ## The terms of documents -/

/-- The texts of a value. -/
def IndexMetadataValue.strings : IndexMetadataValue → List String
  | null => []
  | text shown => [shown]
  | texts l => l

/-- `_metadata_strings` -/
def metadataStrings (metadata : List (String × IndexMetadataValue)) : List String :=
  (metadata.insertionSort fun a b => a.1 ≤ b.1).flatMap fun m => m.1 :: m.2.strings

/-- The text a document is found by. -/
def textOf (document : IndexDocument) : String :=
  " ".intercalate [document.title, document.path.getD "", document.summary,
    " ".intercalate (metadataStrings document.metadata)]

/-- The terms of a document. -/
def documentTerms (document : IndexDocument) : List String :=
  lexicalTerms W.casefold (textOf document)

/-- The documents by their identifiers, and the identifiers by the terms of their documents. -/
structure IndexTerms where
  schemaVersion : Nat := 1
  indexVersion : String := "lexical-v3"
  documents : List (String × IndexDocument)
  postings : List (String × List String)
deriving DecidableEq, Repr

/-- `_terms` -/
def termsOf (documents : List IndexDocument) : IndexTerms where
  documents :=
    (documents.map fun document => (document.id, document)).insertionSort fun a b => a.1 ≤ b.1
  postings :=
    ((group (documents.flatMap fun document =>
      (documentTerms W document).map fun term => (term, document.id))).insertionSort
        fun a b => a.1 ≤ b.1).map fun posting => (posting.1, posting.2.insertionSort (· ≤ ·))

/-! ## A search -/

/-- A document a search finds. -/
structure ProjectIndexMatch where
  document : IndexDocument
  score : Nat
  matchedTerms : List String
deriving DecidableEq, Repr

/-- Whether a text occurs in another. -/
def occurs (part text : List Char) : Bool := text.tails.any part.isPrefixOf

/-- What a search makes of a document in which it found terms. -/
def matchOf (query : String) (document : IndexDocument) (found : List String) :
    ProjectIndexMatch where
  document
  score :=
    found.length * 10 +
      3 * (found.filter fun term => term ∈ lexicalTerms W.casefold document.title).length +
      2 * (found.filter fun term =>
        term ∈ lexicalTerms W.casefold (document.path.getD "")).length +
      if occurs (Text.strip (W.casefold query).toList) (W.casefold document.title).toList
        then 5 else 0
  matchedTerms := (lexicalTerms W.casefold query).filter fun term => term ∈ found

/-- What matches are sorted by. -/
def ProjectIndexMatch.rank (found : ProjectIndexMatch) :
    Lex (Int × Lex (Bool × Lex (String × String))) :=
  toLex (-(found.score : Int), toLex (decide (found.document.kind = .reference),
    toLex (W.casefold found.document.title, found.document.id)))

/-- The matches of a query in the order of an answer. -/
def sorted (found : List ProjectIndexMatch) : List ProjectIndexMatch :=
  found.insertionSort fun a b => a.rank W ≤ b.rank W

/-- The matches the lists of the index lead to. -/
def matchesIn (query : String) (terms : IndexTerms) : List ProjectIndexMatch :=
  let matched := group ((lexicalTerms W.casefold query).flatMap fun term =>
    ((terms.postings.lookup term).getD []).map fun id => (id, term))
  matched.filterMap fun hit =>
    (terms.documents.lookup hit.1).map fun document => matchOf W query document hit.2

/-- What a search answers from an index. -/
def ranked (query : String) (limit : Nat) (terms : IndexTerms) : List ProjectIndexMatch :=
  (sorted W (matchesIn W query terms)).take limit

/-- The terms of a query that a document has. -/
def foundIn (query : String) (document : IndexDocument) : List String :=
  (lexicalTerms W.casefold query).filter fun term => term ∈ documentTerms W document

/-- What a reading of all documents answers: those that have a term of the query. -/
def scan (query : String) (limit : Nat) (documents : List IndexDocument) :
    List ProjectIndexMatch :=
  let hits := documents.filter fun document => foundIn W query document ≠ []
  (sorted W (hits.map fun document => matchOf W query document (foundIn W query document))).take
    limit

/-! ## The lists agree with the documents -/

section Scan

variable {W} {documents : List IndexDocument} {document : IndexDocument} {query term id : String}
  {limit : Nat}

/-- The documents of an index are found by their identifiers. -/
theorem lookup_documents (hids : (documents.map IndexDocument.id).Nodup) :
    (termsOf W documents).documents.lookup id = some document ↔
      document ∈ documents ∧ document.id = id := by
  have hperm := List.perm_insertionSort (fun a b : String × IndexDocument => a.1 ≤ b.1)
    (documents.map fun document => (document.id, document))
  have hkeys : ((termsOf W documents).documents.map Prod.fst).Nodup := by
    refine (hperm.map Prod.fst).nodup_iff.mpr ?_
    rw [List.map_map]
    exact hids
  rw [← mem_iff_lookup hkeys]
  refine hperm.mem_iff.trans (List.mem_map.trans ⟨?_, ?_⟩)
  · rintro ⟨d, hd, he⟩
    obtain ⟨rfl, rfl⟩ := Prod.mk.inj he
    exact ⟨hd, rfl⟩
  · rintro ⟨hd, rfl⟩
    exact ⟨document, hd, rfl⟩

/-- The terms of all documents, each with its document. -/
def occurrences (W : Wording) (documents : List IndexDocument) : List (String × String) :=
  documents.flatMap fun document =>
    (documentTerms W document).map fun term => (term, document.id)

/-- The list of a term. -/
theorem posting_eq : ((termsOf W documents).postings.lookup term).getD [] =
    (distinct (valuesOf (occurrences W documents) term)).insertionSort (· ≤ ·) := by
  have hperm := List.perm_insertionSort (fun a b : String × List String => a.1 ≤ b.1)
    (group (occurrences W documents))
  have hkeys : ((termsOf W documents).postings.map Prod.fst).Nodup := by
    show (List.map Prod.fst (List.map _ _)).Nodup
    rw [List.map_map]
    exact (hperm.map Prod.fst).nodup_iff.mpr (nodup_group _)
  have hmem (ids : List String) : (term, ids) ∈ (termsOf W documents).postings ↔
      ∃ bs, (term, bs) ∈ group (occurrences W documents) ∧ bs.insertionSort (· ≤ ·) = ids := by
    show (term, ids) ∈ List.map _ _ ↔ _
    rw [List.mem_map]
    constructor
    · rintro ⟨posting, hposting, he⟩
      obtain ⟨rfl, rfl⟩ := Prod.mk.inj he
      exact ⟨posting.2, hperm.mem_iff.mp hposting, rfl⟩
    · rintro ⟨bs, hbs, rfl⟩
      exact ⟨(term, bs), hperm.mem_iff.mpr hbs, rfl⟩
  cases hlookup : (termsOf W documents).postings.lookup term with
  | some ids =>
    obtain ⟨bs, hbs, rfl⟩ := (hmem ids).mp ((mem_iff_lookup hkeys).mpr hlookup)
    rw [(mem_group.mp hbs).2]
    rfl
  | none =>
    have hnone : valuesOf (occurrences W documents) term = [] := by
      by_contra hsome
      have hthere := (hmem _).mpr ⟨_, mem_group.mpr ⟨hsome, rfl⟩, rfl⟩
      rw [(mem_iff_lookup hkeys).mp hthere] at hlookup
      cases hlookup
    rw [hnone]
    rfl

/-- The list of a term holds the documents that have it. -/
theorem mem_posting : id ∈ ((termsOf W documents).postings.lookup term).getD [] ↔
    ∃ document ∈ documents, document.id = id ∧ term ∈ documentTerms W document := by
  rw [posting_eq, (List.perm_insertionSort _ _).mem_iff, mem_distinct, mem_valuesOf, occurrences,
    List.mem_flatMap]
  constructor
  · rintro ⟨d, hd, hterm⟩
    obtain ⟨t, ht, he⟩ := List.mem_map.mp hterm
    obtain ⟨rfl, rfl⟩ := Prod.mk.inj he
    exact ⟨d, hd, rfl, ht⟩
  · rintro ⟨d, hd, rfl, hterm⟩
    exact ⟨d, hd, List.mem_map.mpr ⟨term, hterm, rfl⟩⟩

theorem nodup_posting : (((termsOf W documents).postings.lookup term).getD []).Nodup := by
  rw [posting_eq, (List.perm_insertionSort _ _).nodup_iff]
  exact nodup_distinct _

/-- The terms a query leads to an identifier by. -/
theorem valuesOf_hits : valuesOf ((lexicalTerms W.casefold query).flatMap fun term =>
      (((termsOf W documents).postings.lookup term).getD []).map fun id => (id, term)) id =
    (lexicalTerms W.casefold query).filter fun term =>
      id ∈ ((termsOf W documents).postings.lookup term).getD [] := by
  rw [valuesOf_flatMap]
  induction lexicalTerms W.casefold query with
  | nil => rfl
  | cons term terms ih =>
    rw [List.flatMap_cons, ih, valuesOf_keys nodup_posting]
    by_cases h : id ∈ ((termsOf W documents).postings.lookup term).getD []
    · simp [h]
    · simp [h]

/-- They are the terms of the document with this identifier. -/
theorem hits_of_mem (hids : (documents.map IndexDocument.id).Nodup) (hd : document ∈ documents) :
    ((lexicalTerms W.casefold query).filter fun term =>
      document.id ∈ ((termsOf W documents).postings.lookup term).getD []) =
        foundIn W query document := by
  refine List.filter_congr fun term _ => decide_eq_decide.mpr ?_
  rw [mem_posting]
  constructor
  · rintro ⟨d, hd', he, hterm⟩
    obtain rfl := List.inj_on_of_nodup_map hids hd' hd he
    exact hterm
  · exact fun hterm => ⟨document, hd, rfl, hterm⟩

theorem nodup_foundIn : (foundIn W query document).Nodup := (nodup_lexicalTerms _ _).filter _

/-- A search finds the documents that have a term of the query. -/
theorem mem_matchesIn (hids : (documents.map IndexDocument.id).Nodup) {found : ProjectIndexMatch} :
    found ∈ matchesIn W query (termsOf W documents) ↔
      ∃ document ∈ documents, foundIn W query document ≠ [] ∧
        found = matchOf W query document (foundIn W query document) := by
  unfold matchesIn
  rw [List.mem_filterMap]
  constructor
  · rintro ⟨hit, hhit, hfound⟩
    obtain ⟨document, hdocument, rfl⟩ := Option.map_eq_some_iff.mp hfound
    obtain ⟨hd, hid⟩ := (lookup_documents hids).mp hdocument
    obtain ⟨hsome, hvalues⟩ := mem_group.mp (show (hit.1, hit.2) ∈ _ from hhit)
    rw [valuesOf_hits, ← hid, hits_of_mem hids hd] at hsome hvalues
    rw [distinct_of_nodup nodup_foundIn] at hvalues
    exact ⟨document, hd, hsome, by rw [hvalues]⟩
  · rintro ⟨document, hd, hsome, rfl⟩
    refine ⟨(document.id, foundIn W query document), mem_group.mpr ?_, ?_⟩
    · rw [valuesOf_hits, hits_of_mem hids hd]
      exact ⟨hsome, (distinct_of_nodup nodup_foundIn).symm⟩
    · rw [(lookup_documents hids).mpr ⟨hd, rfl⟩]
      rfl

/-- A search finds no document twice. -/
theorem nodup_matchesIn (hids : (documents.map IndexDocument.id).Nodup) :
    ((matchesIn W query (termsOf W documents)).map fun found => found.document.id).Nodup := by
  unfold matchesIn
  refine List.pairwise_map.mpr (List.pairwise_filterMap.mpr ?_)
  refine (List.pairwise_map.mp (nodup_group _)).imp fun hne found hfound found' hfound' => ?_
  obtain ⟨document, hdocument, rfl⟩ := Option.map_eq_some_iff.mp hfound
  obtain ⟨document', hdocument', rfl⟩ := Option.map_eq_some_iff.mp hfound'
  obtain ⟨-, hid⟩ := (lookup_documents hids).mp hdocument
  obtain ⟨-, hid'⟩ := (lookup_documents hids).mp hdocument'
  show document.id ≠ document'.id
  rw [hid, hid']
  exact hne

/-- The order of an answer depends on the matches alone. -/
theorem sorted_congr {l l' : List ProjectIndexMatch} (hperm : l.Perm l')
    (hids : (l.map fun found => found.document.id).Nodup) : sorted W l = sorted W l' := by
  have hsorted := List.perm_insertionSort (fun a b => a.rank W ≤ b.rank W) l
  have hsorted' := List.perm_insertionSort (fun a b => a.rank W ≤ b.rank W) l'
  refine List.Perm.eq_of_pairwise (fun a b ha hb hab hba => ?_) (List.pairwise_insertionSort _ _)
    (List.pairwise_insertionSort _ _) (hsorted.trans (hperm.trans hsorted'.symm))
  have hrank : a.rank W = b.rank W := le_antisymm hab hba
  have hid : a.document.id = b.document.id :=
    (congrArg (fun rank => (ofLex (ofLex (ofLex rank).2).2).2) hrank :)
  exact List.inj_on_of_nodup_map hids (hsorted.mem_iff.mp ha)
    (hperm.mem_iff.mpr (hsorted'.mem_iff.mp hb)) hid

/-- A search by the lists of an index answers what a reading of its documents answers. -/
theorem ranked_eq_scan (hids : (documents.map IndexDocument.id).Nodup) :
    ranked W query limit (termsOf W documents) = scan W query limit documents := by
  let hits := documents.filter fun document => foundIn W query document ≠ []
  have hscanned : ((hits.map fun document => matchOf W query document
      (foundIn W query document)).map fun found => found.document.id).Nodup := by
    rw [List.map_map]
    exact hids.sublist (List.filter_sublist.map _)
  have hperm : (matchesIn W query (termsOf W documents)).Perm
      (hits.map fun document => matchOf W query document (foundIn W query document)) := by
    refine (List.perm_ext_iff_of_nodup (nodup_matchesIn hids).of_map hscanned.of_map).mpr
      fun found => ?_
    rw [mem_matchesIn hids, List.mem_map]
    constructor
    · rintro ⟨document, hd, hsome, rfl⟩
      exact ⟨document, List.mem_filter.mpr ⟨hd, decide_eq_true hsome⟩, rfl⟩
    · rintro ⟨document, hd, rfl⟩
      obtain ⟨hd, hsome⟩ := List.mem_filter.mp hd
      exact ⟨document, hd, of_decide_eq_true hsome, rfl⟩
  unfold ranked scan
  rw [sorted_congr hperm (nodup_matchesIn hids)]

end Scan

end ProjectIndex

end Orqalis
