import Mathlib.Algebra.Order.Ring.Rat
import Orqalis.Graph.Models
import Orqalis.Lib.Breadth
import Orqalis.Lib.Outcome

/-!
# Graph queries

Bounded exploration of a project graph: what depends on a node or on a file (`impact`), and a
shortest path between two nodes (`shortestPath`). Both are the breadth-first search of
`Lib.Breadth` over the edges that a filter admits.
-/

namespace Orqalis

open Lib Lib.Outcome

inductive Direction
  | incoming
  | outgoing
  | both
deriving DecidableEq, Repr

/-- Which edges a query goes along. -/
structure EdgeFilter where
  direction : Direction
  includeInferred : Bool
  minConfidence : Rat

structure GraphTraversal where
  roots : List String
  direction : Direction
  nodes : List GraphNode
  edges : List GraphEdge
  depths : List (String × Nat)
  truncated : Bool
  generatedAt : Time
  parserVersion : String
deriving DecidableEq

structure GraphPath where
  found : Bool
  nodes : List GraphNode := []
  edges : List GraphEdge := []
  visitedNodes : Nat
  truncated : Bool
  generatedAt : Time
  parserVersion : String
deriving DecidableEq

structure GraphQueries where
  graph : ProjectGraph

namespace GraphQueries

variable (q : GraphQueries)

/-! ## The queries -/

/-- The nodes by their identifiers. -/
def nodes : Table GraphNode.id := Table.ofList q.graph.nodes

/-- The limits a query is held to. -/
def limits (maxDepth maxNodes : Int) (minConfidence : Rat) : Except Error Unit :=
  if ¬ (1 ≤ maxDepth ∧ maxDepth ≤ 20) ∨ ¬ (1 ≤ maxNodes ∧ maxNodes ≤ 1000) then
    .error (.input "Graph queries require depth 1..20 and node limit 1..1000")
  else if ¬ (0 ≤ minConfidence ∧ minConfidence ≤ 1) then
    .error (.input "Graph confidence must be between 0 and 1")
  else .ok ()

/-- Whether a query goes along an edge. -/
def admits (f : EdgeFilter) (edge : GraphEdge) : Bool :=
  q.nodes.has edge.sourceId && q.nodes.has edge.targetId &&
    decide (f.minConfidence ≤ edge.confidence) &&
    (f.includeInferred || edge.provenance == .extracted)

/-- Where an edge leads from a node. -/
def leads (direction : Direction) (source : String) (edge : GraphEdge) :
    List (String × GraphEdge) :=
  (if direction ≠ .incoming ∧ edge.sourceId = source then [(edge.targetId, edge)] else []) ++
    if direction ≠ .outgoing ∧ edge.targetId = source then [(edge.sourceId, edge)] else []

/-- The neighbours of a node, by their identifiers and those of the edges. -/
def adjacency (f : EdgeFilter) (source : String) : List (String × GraphEdge) :=
  (((q.graph.edges.insertionSort fun a b => a.id ≤ b.id).filter (q.admits f)).flatMap
    (leads f.direction source)).insertionSort
      fun a b => a.1 < b.1 ∨ a.1 = b.1 ∧ a.2.id ≤ b.2.id

/-- The identifiers of the nodes of a file. -/
def fileNodes (path : String) : List String :=
  ((q.nodes.entries.filter fun n => n.filePath = some path).map GraphNode.id).insertionSort (· ≤ ·)

/-- The nodes a query starts from: the one of an identifier, or all of a file. -/
def roots (nodeOrPath : String) : Except Error (List String) :=
  if q.nodes.has nodeOrPath then .ok [nodeOrPath]
  else if q.fileNodes nodeOrPath = [] then
    .error (.notFound "No graph node or repository-relative file matches the query")
  else .ok (q.fileNodes nodeOrPath)

/-- The nodes of some identifiers. A `KeyError` where one has no node. -/
def resolve (ids : List String) : Except Error (List GraphNode) :=
  ids.mapM fun id =>
    match q.nodes.get? id with
    | some node => .ok node
    | none => .error (.runtime id)

/-- What a search from some roots found. -/
def traversal (selected : List String) (search : Breadth.Search String GraphEdge)
    (nodes : List GraphNode) : GraphTraversal where
  roots := selected
  direction := .incoming
  nodes
  edges := search.links.map fun l => l.2.2
  depths := search.depths
  truncated := search.truncated
  generatedAt := q.graph.generatedAt
  parserVersion := q.graph.parserVersion

/-- What depends on a node, or on a file. -/
def impact (nodeOrPath : String) (maxDepth maxNodes : Int) (includeInferred : Bool)
    (minConfidence : Rat) : Except Error GraphTraversal := do
  limits maxDepth maxNodes minConfidence
  let roots ← q.roots nodeOrPath
  let f : EdgeFilter := { direction := .incoming, includeInferred, minConfidence }
  let selected := roots.take maxNodes.toNat
  let start := Breadth.start selected (decide (selected.length < roots.length))
  let search := (Breadth.search maxDepth.toNat maxNodes.toNat (fun _ => false) (q.adjacency f)
    (selected.length + maxNodes.toNat) start).1
  let nodes ← q.resolve search.nodes
  return q.traversal selected search nodes

/-- The search for a node from another. -/
def searchFor (sourceId targetId : String) (maxDepth maxNodes : Nat) (f : EdgeFilter) :
    Breadth.Search String GraphEdge × Bool :=
  if sourceId = targetId then (Breadth.start [sourceId] false, true)
  else
    Breadth.search maxDepth maxNodes (· = targetId) (q.adjacency f) (1 + maxNodes)
      (Breadth.start [sourceId] false)

/-- What a search for a node came to. -/
def pathOf (found : Bool) (search : Breadth.Search String GraphEdge) (nodes : List GraphNode)
    (edges : List GraphEdge) : GraphPath where
  found
  nodes
  edges
  visitedNodes := search.depths.length
  truncated := search.truncated
  generatedAt := q.graph.generatedAt
  parserVersion := q.graph.parserVersion

/-- A shortest path between two nodes. -/
def shortestPath (sourceId targetId : String) (maxDepth maxNodes : Int) (f : EdgeFilter) :
    Except Error GraphPath := do
  limits maxDepth maxNodes f.minConfidence
  if q.nodes.has sourceId = false ∨ q.nodes.has targetId = false then
    throw (.notFound "Source and target must be graph node IDs")
  let r := q.searchFor sourceId targetId maxDepth.toNat maxNodes.toNat f
  if r.2 then
    match r.1.trace sourceId ((r.1.depth? targetId).getD 0) targetId [targetId] [] with
    | none => throw (.runtime targetId)
    | some (ids, edges) =>
      let nodes ← q.resolve ids
      return q.pathOf true r.1 nodes edges
  else return q.pathOf false r.1 [] []

/-! ## The filtered graph -/

/-- An edge of the filtered graph joins a node to another. -/
def Joins (f : EdgeFilter) (x : String) (edge : GraphEdge) (y : String) : Prop :=
  edge ∈ q.graph.edges ∧ q.admits f edge = true ∧
    (f.direction ≠ .incoming ∧ edge.sourceId = x ∧ edge.targetId = y ∨
      f.direction ≠ .outgoing ∧ edge.targetId = x ∧ edge.sourceId = y)

/-- Two nodes are joined in the filtered graph. -/
def Hop (f : EdgeFilter) (x y : String) : Prop := ∃ edge, q.Joins f x edge y

variable {q} {f : EdgeFilter}

theorem mem_leads {direction : Direction} {source y : String} {e edge : GraphEdge} :
    (y, e) ∈ leads direction source edge ↔ e = edge ∧
      (direction ≠ .incoming ∧ edge.sourceId = source ∧ edge.targetId = y ∨
        direction ≠ .outgoing ∧ edge.targetId = source ∧ edge.sourceId = y) := by
  unfold leads
  rw [List.mem_append]
  split_ifs with h h' h' <;> simp <;> grind

/-- The neighbours of a node are those it is joined to. -/
theorem mem_adjacency {x y : String} {e : GraphEdge} :
    (y, e) ∈ q.adjacency f x ↔ q.Joins f x e y := by
  unfold adjacency Joins
  simp only [List.mem_insertionSort, List.mem_flatMap, List.mem_filter]
  constructor
  · rintro ⟨edge, ⟨hedge, hadmits⟩, hleads⟩
    obtain ⟨rfl, hends⟩ := mem_leads.mp hleads
    exact ⟨hedge, hadmits, hends⟩
  · rintro ⟨hedge, hadmits, hends⟩
    exact ⟨e, ⟨hedge, hadmits⟩, mem_leads.mpr ⟨rfl, hends⟩⟩

theorem adjacent_adjacency : Breadth.Adjacent (q.adjacency f) = q.Hop f := by
  funext x y
  exact propext (exists_congr fun _ => mem_adjacency)

theorem joins_adjacency :
    (fun x e y => (y, e) ∈ q.adjacency f x) = q.Joins f := by
  funext x e y
  exact propext mem_adjacency

/-- What is joined is a node. -/
theorem Joins.has {x y : String} {e : GraphEdge} (h : q.Joins f x e y) :
    q.nodes.has y = true := by
  obtain ⟨-, hadmits, hends⟩ := h
  simp only [admits, Bool.and_eq_true] at hadmits
  obtain ⟨⟨⟨hsource, htarget⟩, -⟩, -⟩ := hadmits
  rcases hends with ⟨-, -, rfl⟩ | ⟨-, -, rfl⟩
  · exact htarget
  · exact hsource

/-- What a walk leads to is a node, where the roots are. -/
theorem has_of_walk {roots : List String} (hroots : ∀ x ∈ roots, q.nodes.has x = true) {n : Nat}
    {x : String} (h : Breadth.Walk (q.Hop f) roots n x) : q.nodes.has x = true := by
  cases h with
  | root hx => exact hroots x hx
  | step _ hxy =>
    obtain ⟨e, he⟩ := hxy
    exact he.has

theorem resolve_ok {ids : List String} (h : ∀ id ∈ ids, q.nodes.has id = true) :
    ∃ nodes, q.resolve ids = .ok nodes ∧ nodes.map GraphNode.id = ids ∧
      ∀ n ∈ nodes, n ∈ q.nodes := by
  induction ids with
  | nil => exact ⟨[], rfl, rfl, by simp⟩
  | cons id ids ih =>
    obtain ⟨nodes, hnodes, hids, hmem⟩ := ih fun i hi => h i (List.mem_cons_of_mem _ hi)
    obtain ⟨node, hnode⟩ := Option.isSome_iff_exists.mp (h id List.mem_cons_self)
    have hkey : node.id = id := Table.key_of_get? hnode
    refine ⟨node :: nodes, ?_, by rw [List.map_cons, hkey, hids], ?_⟩
    · unfold resolve at hnodes ⊢
      rw [List.mapM_cons, hnodes, hnode]
      rfl
    · rintro n hn
      rcases List.mem_cons.mp hn with rfl | hn
      · exact Table.mem_of_get? hnode
      · exact hmem n hn

/-- The nodes a query starts from are nodes, each once. -/
theorem roots_ok {nodeOrPath : String} {all : List String} (h : q.roots nodeOrPath = .ok all) :
    all.Nodup ∧ ∀ x ∈ all, q.nodes.has x = true := by
  unfold roots at h
  split_ifs at h with hhas hfound
  · cases h
    exact ⟨List.nodup_singleton _, by simpa using hhas⟩
  · cases h
    have hperm := List.perm_insertionSort (· ≤ ·)
      ((q.nodes.entries.filter fun n => n.filePath = some nodeOrPath).map GraphNode.id)
    refine ⟨hperm.nodup_iff.mpr (q.nodes.nodup.sublist (List.filter_sublist.map _)), ?_⟩
    intro x hx
    obtain ⟨n, hn, rfl⟩ := List.mem_map.mp (hperm.mem_iff.mp hx)
    unfold Table.has
    rw [Table.get?_of_mem (List.mem_filter.mp hn).1]
    rfl

/-! ## Impact -/

/-- What a traversal is in the filtered graph: every node it has with its distance from the
roots it selected, and truncated where a root, or a node some walk leads to, is left out. -/
structure ExactTraversal (q : GraphQueries) (f : EdgeFilter) (all : List String)
    (maxNodes : Nat) (t : GraphTraversal) : Prop where
  roots : t.roots = all.take maxNodes
  nodes : t.nodes.map GraphNode.id = t.depths.map Prod.fst ∧ ∀ n ∈ t.nodes, n ∈ q.nodes
  distance : ∀ x d, (x, d) ∈ t.depths → Breadth.Distance (q.Hop f) t.roots d x
  truncated : t.truncated = true ↔
    ∃ n x, Breadth.Walk (q.Hop f) all n x ∧ x ∉ t.nodes.map GraphNode.id

/-- A walk from some of the roots is one from all of them. -/
theorem walk_mono {R : String → String → Prop} {some' all : List String} (hsub : some' ⊆ all)
    {n : Nat} {x : String} (h : Breadth.Walk R some' n x) : Breadth.Walk R all n x := by
  induction h with
  | root hx => exact .root (hsub hx)
  | step _ hxy ih => exact .step ih hxy

theorem impact_exact {nodeOrPath : String} {maxDepth maxNodes : Int} {includeInferred : Bool}
    {minConfidence : Rat} {all : List String}
    (hlimits : limits maxDepth maxNodes minConfidence = .ok ())
    (hroots : q.roots nodeOrPath = .ok all) :
    ∃ t, q.impact nodeOrPath maxDepth maxNodes includeInferred minConfidence = .ok t ∧
      ExactTraversal q { direction := .incoming, includeInferred, minConfidence } all
        maxNodes.toNat t := by
  obtain ⟨hnodup, hhas⟩ := roots_ok hroots
  obtain ⟨f, hf⟩ : ∃ f : EdgeFilter,
    f = { direction := .incoming, includeInferred, minConfidence } := ⟨_, rfl⟩
  obtain ⟨selected, hselected⟩ : ∃ l, l = all.take maxNodes.toNat := ⟨_, rfl⟩
  obtain ⟨r, hr⟩ : ∃ r, Breadth.search maxDepth.toNat maxNodes.toNat (fun _ => false)
    (q.adjacency f) (selected.length + maxNodes.toNat)
    (Breadth.start selected (decide (selected.length < all.length))) = r := ⟨_, rfl⟩
  have hsub : selected ⊆ all := hselected ▸ List.take_subset _ _
  have hended := Breadth.search_ended (hselected ▸ hnodup.sublist (List.take_sublist _ _))
    (by rw [hselected]; exact List.length_take_le _ _) (fun _ _ => rfl) hr
  obtain ⟨-, hreached, hcount, -, htruncated⟩ : _ ∧ _ := hended.resolve_right fun hfound => by
    obtain ⟨-, -, x, -, hgoal⟩ := hfound
    cases hgoal
  rw [adjacent_adjacency] at htruncated
  have hdistance : ∀ x d, (x, d) ∈ r.1.depths → Breadth.Distance (q.Hop f) selected d x := by
    rw [← adjacent_adjacency]
    exact hreached.distance
  have hnodes : ∀ x ∈ r.1.nodes, q.nodes.has x = true := by
    intro x hx
    obtain ⟨d, hd⟩ := Breadth.mem_nodes.mp hx
    exact has_of_walk (fun y hy => hhas y (hsub hy)) (hdistance x d hd).1
  obtain ⟨nodes, hresolve, hids, hmem⟩ := resolve_ok hnodes
  refine ⟨q.traversal selected r.1 nodes, ?_, ?_⟩
  · unfold impact
    rw [hlimits, hroots]
    simp only [ok_bind, ← hselected, ← hf, hr, hresolve]
    rfl
  · refine
      { roots := hselected
        nodes := ⟨hids, hmem⟩
        distance := hf ▸ hdistance
        truncated := ?_ }
    rw [← hf]
    change r.1.truncated = true ↔
      ∃ n x, Breadth.Walk (q.Hop f) all n x ∧ x ∉ nodes.map GraphNode.id
    rw [hids, htruncated]
    constructor
    · rintro (hcut | ⟨n, x, hx, hout⟩)
      · -- more roots than nodes
        by_contra hnone
        have hall : all ⊆ r.1.nodes := fun x hx =>
          by_contra fun hout => hnone ⟨0, x, .root hx, hout⟩
        have hle := (List.subperm_of_subset hnodup hall).length_le
        have hless : selected.length < all.length := by simpa using hcut
        rw [hselected, List.length_take] at hless
        omega
      · exact ⟨n, x, walk_mono hsub hx, hout⟩
    · rintro ⟨n, x, hx, hout⟩
      by_cases hless : selected.length < all.length
      · exact .inl (by simpa using hless)
      · have hall : selected = all := by
          rw [hselected, List.length_take] at hless
          rw [hselected, List.take_of_length_le (by omega)]
        exact .inr ⟨n, x, hall ▸ hx, hout⟩

/-! ## Paths -/

/-- What a path is in the filtered graph: where it was found, one from the source to the target
with the fewest hops; where it was not, and not for a limit, there is none. -/
structure ExactPath (q : GraphQueries) (f : EdgeFilter) (sourceId targetId : String)
    (path : GraphPath) : Prop where
  nodes : ∀ n ∈ path.nodes, n ∈ q.nodes
  joined : path.found = true →
    Breadth.Path (q.Joins f) sourceId (path.nodes.map GraphNode.id) path.edges targetId
  shortest : path.found = true →
    Breadth.Distance (q.Hop f) [sourceId] path.edges.length targetId
  none : path.found = false → path.truncated = false →
    ∀ n, ¬ Breadth.Walk (q.Hop f) [sourceId] n targetId

theorem nodes_of_path {x y : String} {ids : List String} {edges : List GraphEdge}
    (h : Breadth.Path (q.Joins f) x ids edges y) (hx : q.nodes.has x = true) :
    ∀ id ∈ ids, q.nodes.has id = true := by
  induction h with
  | nil x => simpa using hx
  | cons hxy _ ih =>
    intro id hid
    rcases List.mem_cons.mp hid with rfl | hid
    · exact hx
    · exact ih hxy.has id hid

/-- A search for a node either reaches it, or ends without. -/
theorem searchFor_ended {sourceId targetId : String} {maxDepth maxNodes : Nat}
    (hmax : 1 ≤ maxNodes) {r : Breadth.Search String GraphEdge × Bool}
    (hr : q.searchFor sourceId targetId maxDepth maxNodes f = r) :
    (r.2 = true ∧ Breadth.Reached (q.adjacency f) [sourceId] r.1 ∧ targetId ∈ r.1.nodes) ∨
      r.2 = false ∧ (r.1.truncated = false →
        ∀ n, ¬ Breadth.Walk (q.Hop f) [sourceId] n targetId) := by
  have hnodup : [sourceId].Nodup := List.nodup_singleton _
  unfold searchFor at hr
  split_ifs at hr with hsame
  · subst hr hsame
    exact .inl ⟨rfl, Breadth.reached_start hnodup _, List.mem_cons_self⟩
  · have hgoal : ∀ x ∈ [sourceId], decide (x = targetId) = false := by
      simpa using hsame
    rcases Breadth.search_ended hnodup hmax hgoal hr with
      ⟨hended, -, -, hmissed, htruncated⟩ | ⟨hfound, hreached, x, hx, hgoal⟩
    · refine .inr ⟨hended, fun hwhole n hn => ?_⟩
      rw [adjacent_adjacency] at htruncated
      by_cases hmem : targetId ∈ r.1.nodes
      · simpa using hmissed targetId hmem
      · have := htruncated.mpr (.inr ⟨n, targetId, hn, hmem⟩)
        rw [hwhole] at this
        cases this
    · obtain rfl : x = targetId := by simpa using hgoal
      exact .inl ⟨hfound, hreached, hx⟩

theorem shortestPath_exact {sourceId targetId : String} {maxDepth maxNodes : Int}
    (hlimits : limits maxDepth maxNodes f.minConfidence = .ok ())
    (hsource : q.nodes.has sourceId = true) (htarget : q.nodes.has targetId = true) :
    ∃ path, q.shortestPath sourceId targetId maxDepth maxNodes f = .ok path ∧
      ExactPath q f sourceId targetId path := by
  have hmax : 1 ≤ maxNodes.toNat := by
    unfold limits at hlimits
    split_ifs at hlimits with hbounds
    omega
  obtain ⟨r, hr⟩ : ∃ r, q.searchFor sourceId targetId maxDepth.toNat maxNodes.toNat f = r :=
    ⟨_, rfl⟩
  unfold shortestPath
  rw [hlimits]
  simp only [ok_bind, hsource, htarget, Bool.true_eq_false, or_self, if_false, hr]
  rcases searchFor_ended hmax hr with ⟨hfound, hreached, hmem⟩ | ⟨hended, hnone⟩
  · obtain ⟨d, hd⟩ := Breadth.mem_nodes.mp hmem
    rw [hfound, hreached.depth?_eq hd, Option.getD_some]
    obtain ⟨ids, edges, htrace, hpath, hlength⟩ := hreached.trace d hd le_rfl (.nil targetId)
    rw [joins_adjacency] at hpath
    obtain ⟨nodes, hresolve, hids, hnodes⟩ := resolve_ok (nodes_of_path hpath hsource)
    have hdistance := adjacent_adjacency ▸ hreached.distance targetId d hd
    refine ⟨q.pathOf true r.1 nodes edges, ?_, ?_⟩
    · simp only [if_true, htrace, hresolve]
      rfl
    · exact
        { nodes := hnodes
          joined := fun _ => hids ▸ hpath
          shortest := fun _ => by
            change Breadth.Distance (q.Hop f) [sourceId] edges.length targetId
            rw [hlength, List.length_nil, Nat.zero_add]
            exact hdistance
          none := fun hfalse => by cases hfalse }
  · refine ⟨q.pathOf false r.1 [] [], ?_, ?_⟩
    · rw [hended]
      rfl
    · exact
        { nodes := by simp [pathOf]
          joined := fun htrue => by cases htrue
          shortest := fun htrue => by cases htrue
          none := fun _ hwhole => hnone hwhole }

/-- Both queries are exact in the filtered graph, for every graph, filter and limits: a path that
is reported is one with the fewest hops, none is missed but for a limit, and what depends on the
roots stands at its distance, truncated exactly where something is left out. -/
theorem queries_exact (q : GraphQueries) {maxDepth maxNodes : Int} {includeInferred : Bool}
    {minConfidence : Rat} (hlimits : limits maxDepth maxNodes minConfidence = .ok ()) :
    (∀ direction sourceId targetId, q.nodes.has sourceId = true → q.nodes.has targetId = true →
      ∃ path, q.shortestPath sourceId targetId maxDepth maxNodes
          { direction, includeInferred, minConfidence } = .ok path ∧
        ExactPath q { direction, includeInferred, minConfidence } sourceId targetId path) ∧
    ∀ nodeOrPath all, q.roots nodeOrPath = .ok all →
      ∃ t, q.impact nodeOrPath maxDepth maxNodes includeInferred minConfidence = .ok t ∧
        ExactTraversal q { direction := .incoming, includeInferred, minConfidence } all
          maxNodes.toNat t := by
  constructor
  · intro direction sourceId targetId hsource htarget
    exact shortestPath_exact hlimits hsource htarget
  · intro nodeOrPath all hroots
    exact impact_exact hlimits hroots

/-- A graph of two functions, one of which calls the other. -/
def sampleGraph : ProjectGraph where
  schemaVersion := 1
  parserVersion := "1"
  generatedAt := 0
  nodes := [{ id := "f", kind := "FUNCTION", name := "f" },
    { id := "g", kind := "FUNCTION", name := "g" }]
  edges := [{
    id := "e", sourceId := "f", targetId := "g", relation := "CALLS", provenance := .extracted
    confidence := 1, evidence := [], resolutionBasis := [], sourceExpressions := [] }]

theorem sample_queries :
    ∃ t, (GraphQueries.mk sampleGraph).impact "g" 3 100 true 0 = .ok t ∧
      ExactTraversal (GraphQueries.mk sampleGraph)
        { direction := .incoming, includeInferred := true, minConfidence := 0 } ["g"] 100 t :=
  (queries_exact (GraphQueries.mk sampleGraph) (by simp [limits])).2 "g" ["g"] (by rfl)

end GraphQueries

end Orqalis
