import Mathlib.Data.List.Dedup
import Mathlib.Data.List.Sort
import Mathlib.Data.String.Basic
import Mathlib.Data.Rat.Defs
import Orqalis.Domain.Base
import Orqalis.Lib.Table

/-!
# The project graph

What the graph of a repository is made of, what a parser reports of a file, and the manifest
that says which files a stored graph was made from.
-/

namespace Orqalis

open Lib

/-! ## The graph -/

inductive GraphNodeKind where
  | file
  | module
  | package
  | classNode
  | function
  | method
  | interface
  | apiRoute
  | databaseTable
  | configuration
  | test
  | documentation
  | reference
deriving DecidableEq, Repr

/-- The text a kind is stored as. -/
def GraphNodeKind.value : GraphNodeKind → String
  | file => "FILE"
  | module => "MODULE"
  | package => "PACKAGE"
  | classNode => "CLASS"
  | function => "FUNCTION"
  | method => "METHOD"
  | interface => "INTERFACE"
  | apiRoute => "API_ROUTE"
  | databaseTable => "DATABASE_TABLE"
  | configuration => "CONFIGURATION"
  | test => "TEST"
  | documentation => "DOCUMENTATION"
  | reference => "REFERENCE"

inductive GraphRelation where
  | imports
  | calls
  | implements
  | extends
  | uses
  | defines
  | references
  | tests
  | configures
  | dependsOn
  | routesTo
  | readsFrom
  | writesTo
deriving DecidableEq, Repr

/-- The text a relation is stored as. -/
def GraphRelation.value : GraphRelation → String
  | imports => "IMPORTS"
  | calls => "CALLS"
  | .implements => "IMPLEMENTS"
  | .extends => "EXTENDS"
  | uses => "USES"
  | defines => "DEFINES"
  | references => "REFERENCES"
  | tests => "TESTS"
  | configures => "CONFIGURES"
  | dependsOn => "DEPENDS_ON"
  | routesTo => "ROUTES_TO"
  | readsFrom => "READS_FROM"
  | writesTo => "WRITES_TO"

inductive GraphProvenance where
  | extracted
  | inferred
deriving DecidableEq, Repr

/-- The text a provenance is stored as. -/
def GraphProvenance.value : GraphProvenance → String
  | extracted => "EXTRACTED"
  | inferred => "INFERRED"

inductive GraphMetadataValue where
  | text (s : String)
  | number (n : Nat)
  | flag (b : Bool)
  | null
  | texts (l : List String)
deriving DecidableEq, Repr

structure GraphNode where
  id : String
  kind : String
  name : String
  filePath : Option String := none
  lineStart : Option Nat := none
  lineEnd : Option Nat := none
  language : Option String := none
  metadata : List (String × GraphMetadataValue) := []
  sourceHash : Option String := none
deriving DecidableEq, Repr

/-- Whether the lines of a node are both absent, or both there and in order. -/
def validLocation : Option Nat → Option Nat → Bool
  | none, none => true
  | some first, some last => 1 ≤ first ∧ first ≤ last
  | _, _ => false

/-- What a node is checked for when it is made. -/
def GraphNode.valid (n : GraphNode) : Bool :=
  n.id ≠ "" ∧ n.name ≠ "" ∧ validLocation n.lineStart n.lineEnd

structure GraphEdge where
  id : String
  sourceId : String
  targetId : String
  relation : String
  provenance : GraphProvenance
  confidence : Rat
  evidence : List String
  resolutionBasis : List String
  sourceExpressions : List String
deriving DecidableEq, Repr

structure ProjectGraph where
  schemaVersion : Nat
  parserVersion : String
  generatedAt : Time
  nodes : List GraphNode
  edges : List GraphEdge
deriving DecidableEq, Repr

/-- A graph as if it had been generated at a time. -/
def ProjectGraph.dated (g : ProjectGraph) (t : Time) : ProjectGraph := { g with generatedAt := t }

/-! ## What a parser reports -/

structure CallSpec where
  name : String
  line : Nat
deriving DecidableEq, Repr

structure ImportSpec where
  module : String
  names : List String := []
  level : Nat := 0
  owner : Option String := none
  line : Nat
  aliases : List (String × String) := []
deriving DecidableEq, Repr

structure SymbolSpec where
  kind : String
  name : String
  qualifiedName : String
  parentQualifiedName : Option String := none
  lineStart : Nat
  lineEnd : Nat
  byteStart : Option Nat := none
  byteEnd : Option Nat := none
  bases : List String := []
  implements : List String := []
  calls : List CallSpec := []
  boundNames : List String := []
deriving DecidableEq, Repr

structure ParsedSource where
  parserVersion : String
  parserKind : String
  contentHash : String
  lineCount : Nat
  syntaxError : Bool := false
  extractionTruncated : Bool := false
  diagnostics : List String := []
  symbols : List SymbolSpec := []
  imports : List ImportSpec := []
  moduleCalls : List CallSpec := []
deriving DecidableEq, Repr

/-! ## The manifest -/

/-- The hash of each indexed file, in the order of the paths. -/
structure FileHashes where
  entries : List (String × String)
  sorted : (entries.map Prod.fst).SortedLT
deriving DecidableEq

namespace FileHashes

/-- The hash of a path. -/
def get? (h : FileHashes) (path : String) : Option String :=
  (h.entries.find? fun e => e.1 = path).map Prod.snd

/-- The paths. -/
def paths (h : FileHashes) : List String := h.entries.map Prod.fst

/-- No file. -/
def empty : FileHashes := ⟨[], List.Pairwise.nil.sortedLT⟩

/-- The hashes of those of some paths that have one. -/
def collect (candidates : List String) (hash : String → Option String) : FileHashes where
  entries := (candidates.dedup.insertionSort (· ≤ ·)).filterMap fun path =>
    (hash path).map fun h => (path, h)
  sorted := by
    have hsorted := List.pairwise_insertionSort (· ≤ ·) candidates.dedup
    have hnodup := (List.perm_insertionSort (· ≤ ·) candidates.dedup).nodup_iff.mpr
      candidates.nodup_dedup
    have hlt := (hsorted.and hnodup).imp fun h => lt_of_le_of_ne h.1 h.2
    apply List.Pairwise.sortedLT
    rw [List.pairwise_map]
    refine List.pairwise_filterMap.mpr (hlt.imp ?_)
    rintro p q hpq ⟨_, _⟩ hx ⟨_, _⟩ hy
    obtain ⟨h, -, heq⟩ := Option.map_eq_some_iff.mp hx
    obtain ⟨h', -, heq'⟩ := Option.map_eq_some_iff.mp hy
    cases heq
    cases heq'
    exact hpq

theorem get?_eq_some {h : FileHashes} {path hash : String} :
    h.get? path = some hash ↔ (path, hash) ∈ h.entries := by
  unfold get?
  constructor
  · intro hget
    obtain ⟨x, hx, rfl⟩ := Option.map_eq_some_iff.mp hget
    have hpath : x.1 = path := by simpa using List.find?_some hx
    rw [← hpath]
    exact List.mem_of_find?_eq_some hx
  · intro hmem
    have hsome : (h.entries.find? fun e => e.1 = path).isSome := by
      rw [List.find?_isSome]
      exact ⟨_, hmem, by simp⟩
    obtain ⟨x, hx⟩ := Option.isSome_iff_exists.mp hsome
    have hpath : x.1 = path := by simpa using List.find?_some hx
    have heq : x = (path, hash) :=
      List.inj_on_of_nodup_map h.sorted.pairwise.nodup (List.mem_of_find?_eq_some hx) hmem hpath
    rw [hx, heq]
    rfl

/-- The hash of a path among those that are collected. -/
theorem get?_collect (candidates : List String) (hash : String → Option String) (path : String) :
    (collect candidates hash).get? path = if path ∈ candidates then hash path else none := by
  refine Option.ext fun h => ?_
  rw [get?_eq_some]
  unfold collect
  simp only [List.mem_filterMap, List.mem_insertionSort, List.mem_dedup, Option.map_eq_some_iff,
    Prod.mk.injEq]
  constructor
  · rintro ⟨p, hp, v, hv, rfl, rfl⟩
    rw [if_pos hp]
    exact hv
  · intro h'
    split_ifs at h' with hp
    exact ⟨path, hp, h, h', rfl, rfl⟩

/-- Hashes that agree on every path are the same. -/
theorem eq_of_get? {h h' : FileHashes} (heq : ∀ path, h.get? path = h'.get? path) : h = h' := by
  have hmem : ∀ e, e ∈ h.entries ↔ e ∈ h'.entries := by
    intro e
    rw [← get?_eq_some, ← get?_eq_some, heq]
  have hlt : ∀ k : FileHashes, k.entries.Pairwise fun a b => a.1 < b.1 := fun k =>
    List.pairwise_map.mp k.sorted.pairwise
  have hperm : List.Perm h.entries h'.entries :=
    (List.perm_ext_iff_of_nodup (List.Nodup.of_map _ h.sorted.pairwise.nodup)
      (List.Nodup.of_map _ h'.sorted.pairwise.nodup)).mpr hmem
  have hentries : h.entries = h'.entries :=
    hperm.eq_of_pairwise (fun a b _ _ hab hba => absurd hba (lt_asymm hab)) (hlt h) (hlt h')
  cases h
  cases h'
  cases hentries
  rfl

end FileHashes

structure GraphManifest where
  schemaVersion : Nat
  parserVersion : String
  indexedCommit : Option String
  indexedHead : Option String
  indexedBranch : Option String
  dirtyPaths : List String
  fileHashes : FileHashes
  graphSha256 : String
  lastIndexedAt : Time
deriving DecidableEq

end Orqalis
