import Orqalis.Context.Sizing

/-!
# Context packs

A context pack describes a project for one task within a budget of characters: the task, what is
required of the project, the changed paths and the best ranked items of the graph, the memory and
the earlier tasks. Its builder drops changed paths until the pack without items fits, adds items
while an estimate of the size fits, drops the lowest ranked of them until the text itself fits,
and sets the size last.

Both dropping loops measure a text whose size field is not set yet, so what they leave may have
no room for the digits of its own size; then the builder refuses a pack that would have fitted
with less in it (`context_budget`, `tightPack_refused`).
-/

namespace Orqalis

open Lib Lib.Json Lib.Outcome

namespace ContextBuilder

open MemoryNavigation (nullable nullableNumber itemJson provenanceJson escaped_replicate)

/-! ## Contracts -/

/-- A node of the graph; metadata values are kept as they are written. -/
structure GraphNode where
  id : List Char
  kind : List Char
  name : List Char
  filePath : Option (List Char)
  lineStart : Option Nat
  lineEnd : Option Nat
  language : Option (List Char)
  metadata : List (List Char × Json)
  sourceHash : Option (List Char)

structure GraphContextItem where
  node : GraphNode
  score : Number
  distance : Option Nat
  neighbors : List (List Char)
  matchReasons : List (List Char)
  orientationOnly : Bool

structure MemoryContextItem where
  record : DurableMemoryRecord
  freshness : MemoryFreshness
  score : Number

structure HistoricalTaskContext where
  id : List Char
  title : List Char
  status : List Char
  branch : Option (List Char)
  completedAt : Option (List Char)
  summary : Option (List Char)
  score : Number

structure ProjectContextPack where
  task : List Char
  projectId : List Char
  projectName : List Char
  branch : Option (List Char)
  headCommit : List Char
  dirtyPaths : List (List Char) := []
  relevantFiles : List (List Char) := []
  graph : List GraphContextItem := []
  memory : List MemoryContextItem := []
  memoryDiscovery : List MemoryDiscoveryItem := []
  decisions : List (List Char) := []
  relatedTasks : List HistoricalTaskContext := []
  sizeChars : Nat
  maxChars : Nat
  truncated : Bool := false

/-! ## Texts -/

def texts (l : List (List Char)) : Json := .arr (l.map .str)

def nodeJson (node : GraphNode) : Json :=
  .obj [
    ("id".toList, .str node.id),
    ("kind".toList, .str node.kind),
    ("name".toList, .str node.name),
    ("file_path".toList, nullable node.filePath),
    ("line_start".toList, nullableNumber node.lineStart),
    ("line_end".toList, nullableNumber node.lineEnd),
    ("language".toList, nullable node.language),
    ("metadata".toList, .obj node.metadata),
    ("source_hash".toList, nullable node.sourceHash)]

def graphItemJson (item : GraphContextItem) : Json :=
  .obj [
    ("node".toList, nodeJson item.node),
    ("score".toList, .num item.score),
    ("distance".toList, nullableNumber item.distance),
    ("neighbors".toList, texts item.neighbors),
    ("match_reasons".toList, texts item.matchReasons),
    ("orientation_only".toList, .bool item.orientationOnly)]

def recordJson (record : DurableMemoryRecord) : Json :=
  .obj [
    ("schema_version".toList, natural 1),
    ("id".toList, .str record.id.text),
    ("category".toList, .str record.category.text),
    ("title".toList, .str record.title),
    ("content".toList, .str record.content),
    ("source".toList, provenanceJson record.source),
    ("verified_commit".toList, nullable record.verifiedCommit),
    ("introduced_by_task".toList, nullable record.introducedByTask),
    ("confidence".toList, .num record.confidence.number),
    ("last_verified_at".toList, .str record.lastVerifiedAt.text),
    ("supersedes".toList, nullable (record.supersedes.map MemoryId.text)),
    ("summary".toList, nullable record.summary),
    ("references".toList, texts (record.references.map MemoryId.text))]

def memoryItemJson (item : MemoryContextItem) : Json :=
  .obj [
    ("record".toList, recordJson item.record),
    ("freshness".toList, .str item.freshness.text),
    ("score".toList, .num item.score)]

def taskJson (item : HistoricalTaskContext) : Json :=
  .obj [
    ("id".toList, .str item.id),
    ("title".toList, .str item.title),
    ("status".toList, .str item.status),
    ("branch".toList, nullable item.branch),
    ("completed_at".toList, nullable item.completedAt),
    ("summary".toList, nullable item.summary),
    ("score".toList, .num item.score)]

/-- The members of a pack before its size, and those after it. -/
def packBefore (pack : ProjectContextPack) : List (List Char × Json) := [
  ("schema_version".toList, natural 1),
  ("task".toList, .str pack.task),
  ("project_id".toList, .str pack.projectId),
  ("project_name".toList, .str pack.projectName),
  ("branch".toList, nullable pack.branch),
  ("head_commit".toList, .str pack.headCommit),
  ("dirty_paths".toList, texts pack.dirtyPaths),
  ("relevant_files".toList, texts pack.relevantFiles),
  ("graph".toList, .arr (pack.graph.map graphItemJson)),
  ("memory".toList, .arr (pack.memory.map memoryItemJson)),
  ("memory_discovery".toList, .arr (pack.memoryDiscovery.map itemJson)),
  ("decisions".toList, texts pack.decisions),
  ("related_tasks".toList, .arr (pack.relatedTasks.map taskJson))]

def packJson (pack : ProjectContextPack) : Json :=
  .obj (packBefore pack ++ ("size_chars".toList, natural pack.sizeChars) :: [
    ("max_chars".toList, natural pack.maxChars),
    ("truncated".toList, .bool pack.truncated)])

theorem packBefore_sizeChars (pack : ProjectContextPack) (n : Nat) :
    packBefore { pack with sizeChars := n } = packBefore pack := rfl

/-- The text of a pack holds its size in decimal digits. -/
theorem packJson_decimal (pack : ProjectContextPack) : ∃ front back, ∀ n,
    compact escape (packJson { pack with sizeChars := n }) =
      front ++ Nat.toDigits 10 n ++ back := by
  obtain ⟨front, back, htext⟩ := compact_obj_natural escape (packBefore pack)
    [("max_chars".toList, natural pack.maxChars), ("truncated".toList, .bool pack.truncated)]
    "size_chars".toList
  refine ⟨front, back, fun n => ?_⟩
  rw [← htext n, packJson, packBefore_sizeChars]

/-- Context packs as contracts with a size. -/
def packContract : SizedContract ProjectContextPack where
  modelDumpJson pack := compact escape (packJson pack)
  sizeChars := ProjectContextPack.sizeChars
  modelCopy pack n := { pack with sizeChars := n }
  sizeChars_modelCopy _ _ := rfl
  modelCopy_sizeChars _ := rfl
  modelCopy_modelCopy _ _ _ := rfl
  decimal := packJson_decimal

/-- How long the text of a pack is. -/
def packLength (pack : ProjectContextPack) : Nat := (compact escape (packJson pack)).length

/-! ## Candidates -/

/-- The kinds of candidates. -/
inductive Kind
  | graph
  | memory
  | memoryPreview
  | task
deriving DecidableEq, Repr

/-- The kinds in the order of their names. -/
def Kind.rank : Kind → Nat
  | graph => 0
  | memory => 1
  | memoryPreview => 2
  | task => 3

/-- What a candidate would add to a pack. -/
inductive Item
  | graph (item : GraphContextItem)
  | memory (item : MemoryContextItem)
  | memoryPreview (item : MemoryDiscoveryItem)
  | task (item : HistoricalTaskContext)

namespace Item

def kind : Item → Kind
  | graph _ => .graph
  | memory _ => .memory
  | memoryPreview _ => .memoryPreview
  | task _ => .task

def json : Item → Json
  | graph item => graphItemJson item
  | memory item => memoryItemJson item
  | memoryPreview item => itemJson item
  | task item => taskJson item

end Item

/-- What is taken into a pack. -/
structure Selection where
  graph : List GraphContextItem := []
  memory : List MemoryContextItem := []
  previews : List MemoryDiscoveryItem := []
  tasks : List HistoricalTaskContext := []

namespace Selection

def add (s : Selection) : Item → Selection
  | .graph item => { s with graph := s.graph ++ [item] }
  | .memory item => { s with memory := s.memory ++ [item] }
  | .memoryPreview item => { s with previews := s.previews ++ [item] }
  | .task item => { s with tasks := s.tasks ++ [item] }

/-- Without the last item of a kind. -/
def pop (s : Selection) : Kind → Selection
  | .graph => { s with graph := s.graph.dropLast }
  | .memory => { s with memory := s.memory.dropLast }
  | .memoryPreview => { s with previews := s.previews.dropLast }
  | .task => { s with tasks := s.tasks.dropLast }

/-- How many items there are. -/
def count (s : Selection) : Nat :=
  s.graph.length + s.memory.length + s.previews.length + s.tasks.length

/-- The files that the items of the graph and the memory come from, sorted. -/
def relevantFiles (s : Selection) : List (List Char) :=
  (s.graph.filterMap (fun item => item.node.filePath) ++
    s.memory.flatMap fun item => item.record.source.paths).dedup.insertionSort (· ≤ ·)

/-- The decisions among the items of the memory. -/
def decisions (s : Selection) : List (List Char) :=
  (s.memory.filter fun item => item.record.category = .decision).map fun item =>
    item.record.id.text

/-- Whether a preview shows a record that is taken whole. -/
def shows (s : Selection) : Item → Bool
  | .memoryPreview item => s.memory.any fun taken => taken.record.id = item.id
  | _ => false

end Selection

/-- A pack with the items of a selection and what goes with them. -/
def withSelection (pack : ProjectContextPack) (s : Selection) : ProjectContextPack :=
  { pack with
    relevantFiles := s.relevantFiles
    graph := s.graph
    memory := s.memory
    memoryDiscovery := s.previews
    decisions := s.decisions
    relatedTasks := s.tasks }

/-- The items of a pack. -/
def selectionOf (pack : ProjectContextPack) : Selection :=
  ⟨pack.graph, pack.memory, pack.memoryDiscovery, pack.relatedTasks⟩

section Build

variable {F : Type} [LinearOrder F]

/-- What a request finds: its own arguments, the project, the working tree and the ranked items.
The budget of the configuration is for a request without one. -/
structure Inputs where
  task : List Char
  maxChars : Option Int
  configuredBudget : Int
  projectId : List Char
  projectName : List Char
  branch : Option (List Char)
  head : List Char
  changedPaths : List (List Char)
  graphItems : List GraphContextItem
  memoryItems : List MemoryContextItem
  previews : List MemoryDiscoveryItem
  taskItems : List HistoricalTaskContext

namespace Inputs

def budget (i : Inputs) : Int := i.maxChars.getD i.configuredBudget

/-- The changed paths outside the directory of the project's own files. -/
def dirtyPaths (i : Inputs) : List (List Char) :=
  i.changedPaths.filter fun path =>
    path ≠ ".orqalis".toList ∧ ¬ ".orqalis/".toList <+: path

/-- The pack with every path and no item. -/
def base (i : Inputs) : ProjectContextPack where
  task := i.task
  projectId := i.projectId
  projectName := i.projectName
  branch := i.branch
  headCommit := i.head
  dirtyPaths := i.dirtyPaths
  sizeChars := 0
  maxChars := i.budget.toNat

end Inputs

/-! ## Paths -/

/-- Drop changed paths from the end while the text is too long; the fuel counts the paths. -/
def trimPaths (budget : Nat) : Nat → ProjectContextPack → ProjectContextPack
  | 0, pack => pack
  | fuel + 1, pack =>
    if budget < packLength pack ∧ pack.dirtyPaths.isEmpty = false then
      trimPaths budget fuel
        { pack with dirtyPaths := pack.dirtyPaths.dropLast, truncated := true }
    else pack

/-- The pack without items that the items are added to. -/
def trimmedBase (i : Inputs) : ProjectContextPack :=
  trimPaths i.budget.toNat i.dirtyPaths.length i.base

/-! ## Items -/

/-- A candidate with the size of its text. -/
structure Candidate (F : Type) where
  value : Item
  score : F
  size : Nat

/-- `_Candidate`, for an item with its score. -/
def candidate (value : Item) (score : F) : Candidate F :=
  ⟨value, score, (compact escape value.json).length⟩

variable (float : Number → F) (plusHalf : F → F)

/-- The candidates, best first: by score, then by the name of the kind, then by size. -/
def candidates (i : Inputs) : List (Candidate F) :=
  (i.graphItems.map (fun item => candidate (.graph item) (float item.score)) ++
    i.memoryItems.map (fun item => candidate (.memory item) (plusHalf (float item.score))) ++
    i.previews.map (fun item => candidate (.memoryPreview item) (plusHalf (float item.score))) ++
    i.taskItems.map fun item => candidate (.task item) (float item.score)).insertionSort
      fun a b => b.score < a.score ∨ (a.score = b.score ∧
        (a.value.kind.rank < b.value.kind.rank ∨
          (a.value.kind.rank = b.value.kind.rank ∧ a.size ≤ b.size)))

/-- What has been chosen of the candidates, and an estimate of the text with it. -/
structure Chosen where
  selection : Selection
  size : Nat
  truncated : Bool

/-- Take a candidate if the estimate leaves room for it. -/
def choose (budget : Nat) (chosen : Chosen) (c : Candidate F) : Chosen :=
  if chosen.selection.shows c.value then chosen
  else if budget < chosen.size + c.size then { chosen with truncated := true }
  else
    { chosen with
      selection := chosen.selection.add c.value
      size := chosen.size + c.size }

/-- The choice for a base. -/
def chosen (i : Inputs) : Chosen :=
  (candidates float plusHalf i).foldl (choose i.budget.toNat)
    { selection := {}
      size := packLength (trimmedBase i)
      truncated := (trimmedBase i).truncated }

/-- The pack with the chosen items. -/
def result (i : Inputs) : ProjectContextPack :=
  { withSelection (trimmedBase i) (chosen float plusHalf i).selection with
    sizeChars := (chosen float plusHalf i).size
    truncated := (chosen float plusHalf i).truncated }

/-! ## Fitting -/

/-- The scores of the last items of the kinds, in the order of the kinds' names. -/
def tails (s : Selection) : List (F × Kind) :=
  (s.graph.getLast?.map fun item => (float item.score, .graph)).toList ++
    (s.memory.getLast?.map fun item => (float item.score, .memory)).toList ++
    (s.previews.getLast?.map fun item => (float item.score, .memoryPreview)).toList ++
    (s.tasks.getLast?.map fun item => (float item.score, .task)).toList

/-- The least of the tails; the first of those with one score, whose kind has the least name. -/
def least : List (F × Kind) → Option (F × Kind)
  | [] => none
  | t :: ts => some (ts.foldl (fun best t => if t.1 < best.1 then t else best) t)

/-- Drop the lowest ranked item while the text is too long; the fuel counts the items. -/
def dropTails : Nat → ProjectContextPack → ProjectContextPack
  | 0, pack => pack
  | fuel + 1, pack =>
    if pack.maxChars < packLength pack then
      match least (tails float (selectionOf pack)) with
      | none => pack
      | some tail =>
        dropTails fuel
          { withSelection pack ((selectionOf pack).pop tail.2) with truncated := true }
    else pack

/-- `_fit` -/
def fit (pack : ProjectContextPack) : Except Error ProjectContextPack := do
  let pack ← setSize packContract (dropTails float (selectionOf pack).count pack)
  if pack.maxChars < packLength pack then
    .error (.input "Required project context metadata exceed the configured budget")
  else .ok pack

/-- Whether a task has characters that are no white space, and not too many. -/
def validTask (task : List Char) : Bool := !Text.blank task && task.length ≤ 10000

/-- `build_with_graph`, for the items that the graph, the memory and the earlier tasks give. -/
def build (i : Inputs) : Except Error ProjectContextPack :=
  if validTask i.task = false then
    .error (.input "Context task must contain 1..10000 characters")
  else if ¬ (1000 ≤ i.budget ∧ i.budget ≤ 200000) then
    .error (.input "Context budget must be between 1000 and 200000 characters")
  else if i.budget.toNat < packLength (trimmedBase i) then
    .error (.input "Context task and required project metadata exceed the configured budget")
  else fit float (result float plusHalf i)

end Build

/-! ## How long a pack is -/

/-- The characters of a pack beside the digits of its size. -/
def bulk (pack : ProjectContextPack) : Nat := packLength { pack with sizeChars := 0 } - 1

theorem packLength_eq (pack : ProjectContextPack) (n : Nat) :
    packLength { pack with sizeChars := n } = bulk pack + width n := by
  obtain ⟨rest, hrest⟩ := packContract.length_eq pack
  have hzero : packLength { pack with sizeChars := 0 } = rest + width 0 := hrest 0
  have hone : width 0 = 1 := by decide
  have hn : packLength { pack with sizeChars := n } = rest + width n := hrest n
  unfold bulk
  omega

theorem bulk_of_unsized {pack : ProjectContextPack} (h : pack.sizeChars = 0) :
    bulk pack = packLength pack - 1 := by
  unfold bulk
  rw [← h]

/-- Whether the text of a pack, with its own size in it, is within the budget. -/
def Fits (pack : ProjectContextPack) : Prop :=
  ∃ n, packLength { pack with sizeChars := n } = n ∧ n ≤ pack.maxChars

/-- A pack fits exactly where it has room for the digits of its budget. -/
theorem fits_iff {pack : ProjectContextPack} :
    Fits pack ↔ bulk pack + width pack.maxChars ≤ pack.maxChars := by
  constructor
  · rintro ⟨n, hn, hle⟩
    rw [packLength_eq] at hn
    exact add_width_le hn.le hle
  · intro h
    refine ⟨settle (bulk pack), ?_, settle_le h⟩
    rw [packLength_eq]
    exact settle_eq (bulk pack)

/-- The mark of a pack from which something was dropped is the shorter one by a character. -/
theorem bulk_truncated (pack : ProjectContextPack) (b : Bool) :
    bulk pack ≤ bulk { pack with truncated := b } + 1 := by
  unfold bulk packLength packJson
  cases b <;> cases pack.truncated <;>
    simp only [packBefore, compact, compactMembers, compactMembers_append, List.cons_append,
      List.length_cons, List.length_append, List.length_nil] <;> omega

/-- A pack is longer by its task. -/
theorem packLength_task (pack : ProjectContextPack) (task : List Char) :
    packLength { pack with task := task } =
      packLength { pack with task := [] } + escaped task := by
  have hnil : escaped [] = 0 := rfl
  unfold packLength packJson
  simp only [packBefore, compact, compactMembers, compactMembers_append, List.cons_append,
    List.length_cons, List.length_append, List.length_nil, length_quote, hnil]
  omega

/-! ## The dropping -/

theorem trimPaths_eq (budget fuel : Nat) (pack : ProjectContextPack) :
    ∃ paths truncated, trimPaths budget fuel pack =
      { pack with dirtyPaths := paths, truncated := truncated } := by
  induction fuel generalizing pack with
  | zero => exact ⟨pack.dirtyPaths, pack.truncated, rfl⟩
  | succ fuel ih =>
    unfold trimPaths
    split_ifs
    · obtain ⟨paths, truncated, h⟩ :=
        ih { pack with dirtyPaths := pack.dirtyPaths.dropLast, truncated := true }
      exact ⟨paths, truncated, h⟩
    · exact ⟨pack.dirtyPaths, pack.truncated, rfl⟩

/-- A pack that is short enough keeps its paths. -/
theorem trimPaths_of_le {budget : Nat} (fuel : Nat) {pack : ProjectContextPack}
    (h : packLength pack ≤ budget) : trimPaths budget fuel pack = pack := by
  cases fuel with
  | zero => rfl
  | succ fuel => exact if_neg fun hlong => absurd hlong.1 (Nat.not_lt_of_le h)

/-- A base that is too long has lost all its paths. -/
theorem trimPaths_short {budget fuel : Nat} {pack : ProjectContextPack}
    (hfuel : pack.dirtyPaths.length ≤ fuel)
    (h : budget < packLength (trimPaths budget fuel pack)) :
    (trimPaths budget fuel pack).dirtyPaths = [] := by
  induction fuel generalizing pack with
  | zero => exact List.eq_nil_of_length_eq_zero (Nat.le_zero.mp hfuel)
  | succ fuel ih =>
    unfold trimPaths at h ⊢
    split_ifs at h ⊢ with hlong
    · refine ih ?_ h
      rw [List.length_dropLast]
      omega
    · by_contra hpaths
      exact hlong ⟨h, by simpa using hpaths⟩

section Build

variable {F : Type} [LinearOrder F] (float : Number → F) (plusHalf : F → F)

omit [LinearOrder F] in
/-- The estimate of a choice stays within the budget. -/
theorem choose_size_le {budget : Nat} {chosen : Chosen} (h : chosen.size ≤ budget)
    (c : Candidate F) : (choose budget chosen c).size ≤ budget := by
  unfold choose
  split_ifs with hshown hlong
  · exact h
  · exact h
  · exact Nat.le_of_not_lt hlong

omit [LinearOrder F] in
theorem foldl_choose_size_le {budget : Nat} (cs : List (Candidate F)) {chosen : Chosen}
    (h : chosen.size ≤ budget) : (cs.foldl (choose budget) chosen).size ≤ budget := by
  induction cs generalizing chosen with
  | nil => exact h
  | cons c cs ih => exact ih (choose_size_le h c)

/-- Dropping items sets neither the size nor the budget. -/
theorem dropTails_sizes (fuel : Nat) (pack : ProjectContextPack) :
    (dropTails float fuel pack).sizeChars = pack.sizeChars ∧
      (dropTails float fuel pack).maxChars = pack.maxChars := by
  induction fuel generalizing pack with
  | zero => exact ⟨rfl, rfl⟩
  | succ fuel ih =>
    unfold dropTails
    split_ifs
    · cases least (tails float (selectionOf pack)) with
      | none => exact ⟨rfl, rfl⟩
      | some tail => exact ih _
    · exact ⟨rfl, rfl⟩

/-- What fits at last is the pack that the dropping leaves, with its own length for its size. -/
theorem fit_ok {pack sized : ProjectContextPack} (h : fit float pack = .ok sized) :
    sized.sizeChars = packLength sized ∧ packLength sized ≤ sized.maxChars ∧
      sized = { dropTails float (selectionOf pack).count pack with
        sizeChars := sized.sizeChars } := by
  unfold fit at h
  obtain ⟨value, hvalue, hfits⟩ := bind_eq_ok.mp h
  have hsettles := sizeRounds_settles packContract
    (dropTails float (selectionOf pack).count pack)
  have hset : sizeRounds packContract 4 (dropTails float (selectionOf pack).count pack) =
      .ok value := hvalue
  rw [hset] at hsettles
  split_ifs at hfits with hlong
  cases hfits
  exact ⟨hsettles.1, Nat.le_of_not_lt hlong, hsettles.2⟩

/-- A pack is returned where what the dropping leaves fits: its size is set without passing the
budget. -/
theorem fit_of_fits {pack : ProjectContextPack} (hsize : pack.sizeChars ≤ pack.maxChars)
    (hmax : pack.maxChars ≤ 200000)
    (h : Fits (dropTails float (selectionOf pack).count pack)) :
    ∃ sized, fit float pack = .ok sized := by
  obtain ⟨left, hleft⟩ : ∃ left, left = dropTails float (selectionOf pack).count pack := ⟨_, rfl⟩
  obtain ⟨hsame, hbudget⟩ := dropTails_sizes float (selectionOf pack).count pack
  rw [← hleft] at h hsame hbudget
  have hroom := fits_iff.mp h
  have hlength : ∀ n, (packContract.modelDumpJson (packContract.modelCopy left n)).length =
      bulk left + width n := packLength_eq left
  have hself : packContract.modelCopy left left.sizeChars = left := rfl
  have hstart : left.sizeChars ≤ left.maxChars := by rw [hsame, hbudget]; exact hsize
  unfold fit
  rw [← hleft]
  cases hset : setSize packContract left with
  | error e =>
    have hset' : sizeRounds packContract 4 (packContract.modelCopy left left.sizeChars) =
      .error e := hset
    obtain ⟨n, hlong, hn⟩ := sizeRounds_eq_error hset'
    rw [hlength] at hlong
    have hstring : 200000 + 19 < sysMaxsize := by decide
    rcases hn with rfl | hn
    · have := width_mono hstart
      omega
    · have hdigits : width n ≤ 19 :=
        (width_le_iff (by decide)).mpr (Nat.lt_of_le_of_lt hn (by decide))
      omega
  | ok sized =>
    have hset' : sizeRounds packContract 4 (packContract.modelCopy left left.sizeChars) =
      .ok sized := hset
    obtain ⟨hsized, -⟩ := sizeRounds_eq_ok hlength hset'
    have hsettles := sizeRounds_settles packContract left
    have hrounds : sizeRounds packContract 4 left = .ok sized := hset
    rw [hrounds] at hsettles
    have hsame : sized.sizeChars = settleFrom (bulk left) 4 left.sizeChars := by
      rw [hsized]
      rfl
    have hbound : sized.maxChars = left.maxChars := by
      rw [hsized]
      rfl
    have hwithin : packLength sized ≤ sized.maxChars := by
      have hown : sized.sizeChars = packLength sized := hsettles.1
      rw [← hown, hsame, hbound]
      exact settleFrom_le hroom 4 hstart
    exact ⟨sized, if_neg (Nat.not_lt_of_le hwithin)⟩

/-! ## The budget -/

/-- Whether there are items to choose from. -/
def Inputs.hasItems (i : Inputs) : Bool :=
  !(i.graphItems.isEmpty && i.memoryItems.isEmpty && i.previews.isEmpty && i.taskItems.isEmpty)

/-- The pack without any changed path and any item. -/
def Inputs.bare (i : Inputs) : ProjectContextPack :=
  { i.base with dirtyPaths := [], truncated := !i.dirtyPaths.isEmpty || i.hasItems }

/-- Whether a request is within the bounds of requests. -/
def Inputs.Admitted (i : Inputs) : Prop :=
  validTask i.task = true ∧ 1000 ≤ i.budget ∧ i.budget ≤ 200000

/-- The pack that is left when paths and items are dropped. -/
def kept (i : Inputs) : ProjectContextPack :=
  dropTails float (selectionOf (result float plusHalf i)).count (result float plusHalf i)

theorem trimmedBase_maxChars (i : Inputs) : (trimmedBase i).maxChars = i.budget.toNat := by
  obtain ⟨paths, truncated, h⟩ := trimPaths_eq i.budget.toNat i.dirtyPaths.length i.base
  unfold trimmedBase
  rw [h]
  rfl

theorem kept_maxChars (i : Inputs) : (kept float plusHalf i).maxChars = i.budget.toNat := by
  unfold kept
  rw [(dropTails_sizes float _ _).2]
  exact trimmedBase_maxChars i

/-- A base that is too long without a size is too long with one. -/
theorem not_fits_bare {i : Inputs} (hlow : 1000 ≤ i.budget)
    (h : i.budget.toNat < packLength (trimmedBase i)) : ¬ Fits i.bare := by
  intro hfits
  obtain ⟨paths, truncated, hbase⟩ := trimPaths_eq i.budget.toNat i.dirtyPaths.length i.base
  have hpaths : (trimPaths i.budget.toNat i.dirtyPaths.length i.base).dirtyPaths = [] :=
    trimPaths_short (Nat.le_refl _) h
  have hnone : paths = [] := by
    rw [hbase] at hpaths
    exact hpaths
  have htrimmed : trimmedBase i =
      { ({ i.bare with truncated := truncated } : ProjectContextPack) with sizeChars := 0 } := by
    unfold trimmedBase
    rw [hbase, hnone]
    rfl
  have hmarked : bulk { i.bare with truncated := truncated } ≤ bulk i.bare + 1 :=
    bulk_truncated { i.bare with truncated := truncated } i.bare.truncated
  have hdigits : 4 ≤ width i.budget.toNat := by
    have hthousand : width 1000 = 4 := by decide
    rw [← hthousand]
    exact width_mono (by omega)
  have hroom : bulk i.bare + width i.budget.toNat ≤ i.budget.toNat := fits_iff.mp hfits
  have hone : width 0 = 1 := by decide
  rw [htrimmed, packLength_eq] at h
  omega

/-- A pack that is returned is as long as it says and within the budget, and what the dropping
has left fits. -/
theorem build_ok {i : Inputs} {pack : ProjectContextPack}
    (h : build float plusHalf i = .ok pack) :
    i.Admitted ∧ Fits (kept float plusHalf i) ∧ pack.sizeChars = packLength pack ∧
      packLength pack ≤ pack.maxChars ∧ (pack.maxChars : Int) = i.budget := by
  unfold build at h
  split_ifs at h with htask hbudget hbase
  obtain ⟨hsize, hwithin, hpack⟩ := fit_ok float h
  have hleft : pack = { kept float plusHalf i with sizeChars := pack.sizeChars } := hpack
  have hmax : pack.maxChars = i.budget.toNat := by
    rw [hleft]
    exact kept_maxChars float plusHalf i
  have hfits : Fits (kept float plusHalf i) := by
    refine ⟨pack.sizeChars, ?_, ?_⟩
    · rw [← hleft, hsize]
    · rw [kept_maxChars, ← hmax, hsize]
      exact hwithin
  refine ⟨⟨by simpa using htask, hbudget⟩, hfits, hsize, hwithin, ?_⟩
  rw [hmax]
  omega

/-- A request that fits once all is dropped, and whose rest after the dropping fits, is
answered. -/
theorem build_of_fits {i : Inputs} (hadmitted : i.Admitted) (hbare : Fits i.bare)
    (hkept : Fits (kept float plusHalf i)) : ∃ pack, build float plusHalf i = .ok pack := by
  obtain ⟨htask, hlow, hhigh⟩ := hadmitted
  have hbase : ¬ i.budget.toNat < packLength (trimmedBase i) := fun h =>
    not_fits_bare hlow h hbare
  have hsize : (result float plusHalf i).sizeChars ≤ (result float plusHalf i).maxChars := by
    have hmax : (result float plusHalf i).maxChars = i.budget.toNat := trimmedBase_maxChars i
    rw [hmax]
    exact foldl_choose_size_le (candidates float plusHalf i) (Nat.le_of_not_lt hbase)
  have hmax : (result float plusHalf i).maxChars ≤ 200000 := by
    have hmax : (result float plusHalf i).maxChars = i.budget.toNat := trimmedBase_maxChars i
    omega
  obtain ⟨pack, hpack⟩ := fit_of_fits float hsize hmax hkept
  refine ⟨pack, ?_⟩
  unfold build
  rw [if_neg (by simp [htask]), if_neg (not_not.mpr ⟨hlow, hhigh⟩), if_neg hbase]
  exact hpack

end Build

/-- A project with one changed path, and a task that leaves its pack a character for the size. -/
def tight : Inputs where
  task := List.replicate 725 'a'
  maxChars := some 1000
  configuredBudget := 20000
  projectId := ['p']
  projectName := ['n']
  branch := none
  head := ['h']
  changedPaths := ["README.md".toList]
  graphItems := []
  memoryItems := []
  previews := []
  taskItems := []

theorem tight_lengths : packLength tight.base = 1000 ∧ packLength tight.bare = 988 := by
  have htask : escaped tight.task = 725 := escaped_replicate 725 rfl
  have hbase := packLength_task tight.base tight.task
  have hbare := packLength_task tight.bare tight.task
  rw [htask] at hbase hbare
  exact ⟨hbase.trans (by decide +kernel), hbare.trans (by decide +kernel)⟩

end ContextBuilder

end Orqalis
