import Mathlib.Data.List.Nodup
import Mathlib.Data.Nat.Basic

/-!
# Breadth-first search within limits

A search from some roots along adjacency lists, which goes no deeper than `maxDepth`, reaches no
more than `maxNodes` nodes, and stops at the first node that is a goal. Whatever it leaves out
for a limit it marks as truncated.

What it reaches has its exact distance from the roots (`Reached`), limits or not: nothing is
added any more once a limit has turned something away. A search comes to a goal or to its end
(`search_sound`), and at its end it is truncated exactly where a walk leads to a node that it left
out (`Sound.truncated_iff`).
-/

namespace Lib.Breadth

variable {ν ε : Type*}

/-! ## Walks -/

/-- Whether an edge leads from one node to another. -/
def Adjacent (adj : ν → List (ν × ε)) (x y : ν) : Prop := ∃ e, (y, e) ∈ adj x

/-- A walk of a number of steps from one of the roots. -/
inductive Walk (R : ν → ν → Prop) (roots : List ν) : Nat → ν → Prop
  | root {x : ν} (hx : x ∈ roots) : Walk R roots 0 x
  | step {n : Nat} {x y : ν} (hx : Walk R roots n x) (hxy : R x y) : Walk R roots (n + 1) y

/-- The distance of a node from the roots. -/
def Distance (R : ν → ν → Prop) (roots : List ν) (n : Nat) (x : ν) : Prop :=
  Walk R roots n x ∧ ∀ m, Walk R roots m x → n ≤ m

theorem Distance.unique {R : ν → ν → Prop} {roots : List ν} {m n : Nat} {x : ν}
    (hm : Distance R roots m x) (hn : Distance R roots n x) : m = n :=
  Nat.le_antisymm (hm.2 n hn.1) (hn.2 m hm.1)

/-- A path, with the nodes it comes through and the edges it takes. -/
inductive Path (joins : ν → ε → ν → Prop) : ν → List ν → List ε → ν → Prop
  | nil (x : ν) : Path joins x [x] [] x
  | cons {x y z : ν} {e : ε} {nodes : List ν} {edges : List ε} (hxy : joins x e y)
    (hyz : Path joins y nodes edges z) : Path joins x (x :: nodes) (e :: edges) z

/-! ## The search -/

/-- A search: the nodes it has reached with their depths, in order, the edges by which it
reached them, those it has yet to go on from, and whether a limit has turned something away. -/
structure Search (ν ε : Type*) where
  depths : List (ν × Nat)
  links : List (ν × ν × ε) := []
  queue : List ν
  truncated : Bool := false

namespace Search

/-- The nodes reached. -/
def nodes (s : Search ν ε) : List ν := s.depths.map Prod.fst

variable [DecidableEq ν]

/-- The depth of a node. -/
def depth? (s : Search ν ε) (x : ν) : Option Nat :=
  (s.depths.find? fun e => e.1 = x).map Prod.snd

/-- From where, and by which edge, a node was reached. -/
def parent? (s : Search ν ε) (x : ν) : Option (ν × ε) :=
  (s.links.find? fun l => l.1 = x).map Prod.snd

/-- The way to a node from the root, in front of what was traced before. The fuel bounds its
edges. -/
def trace (s : Search ν ε) (root : ν) : Nat → ν → List ν → List ε → Option (List ν × List ε)
  | 0, x, nodes, edges => if x = root then some (nodes, edges) else none
  | fuel + 1, x, nodes, edges =>
    if x = root then some (nodes, edges)
    else
      match s.parent? x with
      | none => none
      | some (y, e) => trace s root fuel y (y :: nodes) (e :: edges)

omit [DecidableEq ν] in
/-- The search with one more node, reached from a node of some depth. -/
def reach (s : Search ν ε) (source target : ν) (edge : ε) (depth : Nat) : Search ν ε :=
  { s with
    depths := s.depths ++ [(target, depth + 1)]
    links := s.links ++ [(target, source, edge)] }

omit [DecidableEq ν] in
/-- The search with a node queued. -/
def push (s : Search ν ε) (target : ν) : Search ν ε := { s with queue := s.queue ++ [target] }

end Search

section

variable [DecidableEq ν] (maxDepth maxNodes : Nat) (goal : ν → Bool)

/-- Look at the neighbours of a node of some depth, and say whether one is a goal. -/
def expand (source : ν) (depth : Nat) : List (ν × ε) → Search ν ε → Search ν ε × Bool
  | [], s => (s, false)
  | (target, edge) :: rest, s =>
    if target ∈ s.nodes then expand source depth rest s
    else if maxDepth ≤ depth ∨ maxNodes ≤ s.depths.length then
      expand source depth rest { s with truncated := true }
    else if goal target then (s.reach source target edge depth, true)
    else expand source depth rest ((s.reach source target edge depth).push target)

/-- The search that has reached the roots. -/
def start (roots : List ν) (truncated : Bool) : Search ν ε where
  depths := roots.map fun x => (x, 0)
  queue := roots
  truncated

/-- Go on from what is queued, and say whether a goal was reached. -/
def search (adj : ν → List (ν × ε)) : Nat → Search ν ε → Search ν ε × Bool
  | 0, s => (s, false)
  | fuel + 1, s =>
    match s.queue with
    | [] => (s, false)
    | source :: queue =>
      let step := expand maxDepth maxNodes goal source ((s.depth? source).getD 0) (adj source)
        { s with queue }
      if step.2 then step else search adj fuel step.1

end

/-! ## What is reached -/

section Invariant

variable [DecidableEq ν] (adj : ν → List (ν × ε)) (roots : List ν)

/-- What is reached has its distance, and a link to a node that is one nearer. -/
structure Reached (s : Search ν ε) : Prop where
  nodup : s.nodes.Nodup
  rooted : roots ⊆ s.nodes
  distance : ∀ x d, (x, d) ∈ s.depths → Distance (Adjacent adj) roots d x
  keys : ∀ l ∈ s.links, l.1 ∈ s.nodes
  linked : ∀ x d, (x, d + 1) ∈ s.depths →
    ∃ y e, s.parent? x = some (y, e) ∧ (x, e) ∈ adj y ∧ (y, d) ∈ s.depths

/-- A node whose neighbours a limit may turn away. -/
def Limited (maxDepth maxNodes : Nat) (s : Search ν ε) (d : Nat) : Prop :=
  maxDepth ≤ d ∨ maxNodes ≤ s.depths.length

variable (maxDepth maxNodes : Nat) (goal : ν → Bool) (cut : Prop)

/-- A search under way at a level: it is done with some nodes, but for the edges that are left,
and has the others queued, none of them nearer than the level and none reached farther than one
above it. `cut` tells whether it was truncated from the start. -/
structure Sound (s : Search ν ε) (done : List ν) (left : List (ν × ν × ε)) (level : Nat) : Prop
    extends Reached adj roots s where
  nodes : s.nodes = done ++ s.queue
  count : s.depths.length ≤ maxNodes
  sorted : s.depths.Pairwise fun a b => a.2 ≤ b.2
  done_le : ∀ x d, x ∈ done → (x, d) ∈ s.depths → d ≤ level
  queue_le : ∀ x d, x ∈ s.queue → (x, d) ∈ s.depths → level ≤ d
  depths_le : ∀ x d, (x, d) ∈ s.depths → d ≤ level + 1
  no_goal : ∀ x ∈ s.nodes, goal x = false
  closed : ∀ x d y e, x ∈ done → (x, d) ∈ s.depths → (y, e) ∈ adj x →
    y ∈ s.nodes ∨ s.truncated = true ∧ Limited maxDepth maxNodes s d ∨ (x, y, e) ∈ left
  truncated : s.truncated = true → cut ∨
    ∃ x d y, x ∈ done ∧ (x, d) ∈ s.depths ∧ Adjacent adj x y ∧ y ∉ s.nodes ∧
      Limited maxDepth maxNodes s d
  kept : cut → s.truncated = true

end Invariant

section Lemmas

variable [DecidableEq ν] {adj : ν → List (ν × ε)} {roots : List ν} {maxDepth maxNodes : Nat}
  {goal : ν → Bool} {cut : Prop} {s : Search ν ε} {done : List ν} {left : List (ν × ν × ε)}
  {level : Nat} {source : ν}

omit [DecidableEq ν] in
theorem mem_nodes {x : ν} : x ∈ s.nodes ↔ ∃ d, (x, d) ∈ s.depths := by
  simp [Search.nodes]

theorem Reached.depth_unique (h : Reached adj roots s) {x : ν} {c d : Nat}
    (hc : (x, c) ∈ s.depths) (hd : (x, d) ∈ s.depths) : c = d :=
  (h.distance x c hc).unique (h.distance x d hd)

theorem Reached.depth?_eq (h : Reached adj roots s) {x : ν} {d : Nat} (hd : (x, d) ∈ s.depths) :
    s.depth? x = some d := by
  have hsome : (s.depths.find? fun e => e.1 = x).isSome := by
    rw [List.find?_isSome]
    exact ⟨_, hd, by simp⟩
  obtain ⟨e, he⟩ := Option.isSome_iff_exists.mp hsome
  obtain rfl : e.1 = x := by simpa using List.find?_some he
  have hdepth : e.2 = d := h.depth_unique (List.mem_of_find?_eq_some he) hd
  rw [Search.depth?, he, Option.map_some, hdepth]

/-- As long as no limit is met, whatever a short walk leads to is reached. -/
theorem Sound.reaches (h : Sound adj roots maxDepth maxNodes goal cut s done left level)
    (hleft : ∀ x y e, (x, y, e) ∈ left → (x, level) ∈ s.depths) (hdepth : level < maxDepth)
    (hcount : s.depths.length < maxNodes) {m : Nat} {x : ν} (hx : Walk (Adjacent adj) roots m x)
    (hm : m ≤ level) : x ∈ s.nodes := by
  induction hx with
  | root hx => exact h.rooted hx
  | @step n x y hx hxy ih =>
    obtain ⟨d, hd⟩ := mem_nodes.mp (ih (by omega))
    have hnear : d ≤ n := (h.distance x d hd).2 n hx
    have hdone : x ∈ done := by
      have hmem : x ∈ done ++ s.queue := h.nodes ▸ mem_nodes.mpr ⟨d, hd⟩
      rcases List.mem_append.mp hmem with hmem | hmem
      · exact hmem
      · have := h.queue_le x d hmem hd
        omega
    obtain ⟨e, he⟩ := hxy
    rcases h.closed x d y e hdone hd he with hy | ⟨-, hlimited⟩ | hy
    · exact hy
    · rcases hlimited with hlimited | hlimited <;> omega
    · have := h.depth_unique hd (hleft x y e hy)
      omega

/-- A node turned away by a limit. -/
theorem Sound.turnAway {target : ν} {edge : ε} {rest : List (ν × ν × ε)}
    (h : Sound adj roots maxDepth maxNodes goal cut s done ((source, target, edge) :: rest) level)
    (hsource : source ∈ done) (hlevel : (source, level) ∈ s.depths)
    (hedge : (target, edge) ∈ adj source) (hnew : target ∉ s.nodes)
    (hlimited : Limited maxDepth maxNodes s level) :
    Sound adj roots maxDepth maxNodes goal cut { s with truncated := true } done rest level where
  nodup := h.nodup
  rooted := h.rooted
  distance := h.distance
  keys := h.keys
  linked := h.linked
  nodes := h.nodes
  count := h.count
  sorted := h.sorted
  done_le := h.done_le
  queue_le := h.queue_le
  depths_le := h.depths_le
  no_goal := h.no_goal
  closed := by
    intro x d y e hx hd he
    rcases h.closed x d y e hx hd he with hy | ⟨-, hlim⟩ | hy
    · exact .inl hy
    · exact .inr (.inl ⟨rfl, hlim⟩)
    · rcases List.mem_cons.mp hy with heq | hy
      · cases heq
        obtain rfl := h.depth_unique hd hlevel
        exact .inr (.inl ⟨rfl, hlimited⟩)
      · exact .inr (.inr hy)
  truncated _ := .inr ⟨source, level, target, hsource, hlevel, ⟨edge, hedge⟩, hnew, hlimited⟩
  kept _ := rfl

/-- A node that was reached before. -/
theorem Sound.pass {target : ν} {edge : ε} {rest : List (ν × ν × ε)}
    (h : Sound adj roots maxDepth maxNodes goal cut s done ((source, target, edge) :: rest) level)
    (hold : target ∈ s.nodes) :
    Sound adj roots maxDepth maxNodes goal cut s done rest level :=
  { h with
    closed := by
      intro x d y e hx hd he
      rcases h.closed x d y e hx hd he with hy | hlim | hy
      · exact .inl hy
      · exact .inr (.inl hlim)
      · rcases List.mem_cons.mp hy with heq | hy
        · cases heq
          exact .inl hold
        · exact .inr (.inr hy) }

omit [DecidableEq ν] in
theorem nodes_reach (target : ν) (edge : ε) :
    (s.reach source target edge level).nodes = s.nodes ++ [target] := by
  simp [Search.reach, Search.nodes]

omit [DecidableEq ν] in
theorem mem_depths_reach {target x : ν} {edge : ε} {d : Nat} :
    (x, d) ∈ (s.reach source target edge level).depths ↔
      (x, d) ∈ s.depths ∨ x = target ∧ d = level + 1 := by
  simp [Search.reach]

/-- What a new node is reached by. -/
theorem parent?_reach {target x : ν} {edge : ε} (hkeys : ∀ l ∈ s.links, l.1 ∈ s.nodes)
    (hnew : target ∉ s.nodes) :
    (s.reach source target edge level).parent? x =
      if x = target then some (source, edge) else s.parent? x := by
  unfold Search.reach Search.parent?
  rw [List.find?_append]
  split_ifs with hx
  · subst hx
    have hnone : s.links.find? (fun l => l.1 = x) = none :=
      List.find?_eq_none.mpr fun l hl hkey => hnew (of_decide_eq_true hkey ▸ hkeys l hl)
    simp [hnone]
  · have hne : ¬ target = x := Ne.symm hx
    simp [hne]

/-- A new node is reached at its distance. -/
theorem Sound.reach {target : ν} {edge : ε}
    (h : Sound adj roots maxDepth maxNodes goal cut s done left level)
    (hleft : ∀ x y e, (x, y, e) ∈ left → (x, level) ∈ s.depths)
    (hlevel : (source, level) ∈ s.depths) (hedge : (target, edge) ∈ adj source)
    (hnew : target ∉ s.nodes) (hlimits : ¬ Limited maxDepth maxNodes s level) :
    Reached adj roots (s.reach source target edge level) := by
  have hdepth : level < maxDepth := by
    unfold Limited at hlimits
    omega
  have hcount : s.depths.length < maxNodes := by
    unfold Limited at hlimits
    omega
  have hdistance : Distance (Adjacent adj) roots (level + 1) target := by
    refine ⟨.step (h.distance source level hlevel).1 ⟨edge, hedge⟩, fun m hm => ?_⟩
    by_contra hless
    exact hnew (h.reaches hleft hdepth hcount hm (by omega))
  refine
    { nodup := ?_
      rooted := fun x hx => ?_
      distance := fun x d hd => ?_
      keys := fun l hl => ?_
      linked := fun x d hd => ?_ }
  · rw [nodes_reach, ← List.concat_eq_append]
    exact List.Nodup.concat hnew h.nodup
  · rw [nodes_reach]
    exact List.mem_append_left _ (h.rooted hx)
  · rcases mem_depths_reach.mp hd with hd | ⟨rfl, rfl⟩
    · exact h.distance x d hd
    · exact hdistance
  · rw [nodes_reach]
    rcases List.mem_append.mp hl with hl | hl
    · exact List.mem_append_left _ (h.keys l hl)
    · obtain rfl := List.mem_singleton.mp hl
      simp
  · rw [parent?_reach h.keys hnew]
    rcases mem_depths_reach.mp hd with hd' | ⟨rfl, hd'⟩
    · have hne : x ≠ target := by
        rintro rfl
        exact hnew (mem_nodes.mpr ⟨_, hd'⟩)
      obtain ⟨y, e, hparent, he, hy⟩ := h.linked x d hd'
      rw [if_neg hne]
      exact ⟨y, e, hparent, he, mem_depths_reach.mpr (.inl hy)⟩
    · obtain rfl : d = level := by omega
      rw [if_pos rfl]
      exact ⟨source, edge, rfl, hedge, mem_depths_reach.mpr (.inl hlevel)⟩

/-- A new node that is no goal is queued. -/
theorem Sound.queue {target : ν} {edge : ε} {rest : List (ν × ν × ε)}
    (h : Sound adj roots maxDepth maxNodes goal cut s done ((source, target, edge) :: rest) level)
    (hleft : ∀ x y e, (x, y, e) ∈ (source, target, edge) :: rest → (x, level) ∈ s.depths)
    (hedge : (target, edge) ∈ adj source) (hnew : target ∉ s.nodes)
    (hlimits : ¬ Limited maxDepth maxNodes s level) (hgoal : goal target = false) :
    Sound adj roots maxDepth maxNodes goal cut
      ((s.reach source target edge level).push target) done rest level := by
  have hlevel : (source, level) ∈ s.depths := hleft source target edge (by simp)
  have hreached := h.reach hleft hlevel hedge hnew hlimits
  have hdone : ∀ x ∈ done, x ∈ s.nodes := fun x hx => h.nodes ▸ List.mem_append_left _ hx
  have hcases : ∀ {x d}, (x, d) ∈ ((s.reach source target edge level).push target).depths →
      (x, d) ∈ s.depths ∨ x = target ∧ d = level + 1 := by
    intro x d hd
    change (x, d) ∈ (s.reach source target edge level).depths at hd
    exact mem_depths_reach.mp hd
  have hold : ∀ {x d}, x ∈ s.nodes →
      (x, d) ∈ ((s.reach source target edge level).push target).depths → (x, d) ∈ s.depths := by
    intro x d hx hd
    rcases hcases hd with hd | ⟨rfl, -⟩
    · exact hd
    · exact absurd hx hnew
  exact
    { nodup := hreached.nodup
      rooted := hreached.rooted
      distance := hreached.distance
      keys := hreached.keys
      linked := hreached.linked
      nodes := by
        change (s.reach source target edge level).nodes = done ++ (s.queue ++ [target])
        rw [nodes_reach, ← List.append_assoc, ← h.nodes]
      count := by
        have hroom : s.depths.length < maxNodes := by
          unfold Limited at hlimits
          omega
        simpa [Search.push, Search.reach] using Nat.succ_le_of_lt hroom
      sorted := by
        refine List.pairwise_append.mpr ⟨h.sorted, List.pairwise_singleton _ _, ?_⟩
        intro a ha b hb
        obtain rfl := List.mem_singleton.mp hb
        exact h.depths_le a.1 a.2 ha
      done_le := fun x d hx hd => h.done_le x d hx (hold (hdone x hx) hd)
      queue_le := by
        intro x d hx hd
        rcases hcases hd with hd' | ⟨rfl, rfl⟩
        · rcases List.mem_append.mp hx with hx | hx
          · exact h.queue_le x d hx hd'
          · obtain rfl := List.mem_singleton.mp hx
            exact absurd (mem_nodes.mpr ⟨d, hd'⟩) hnew
        · omega
      depths_le := by
        intro x d hd
        rcases hcases hd with hd | ⟨rfl, rfl⟩
        · exact h.depths_le x d hd
        · omega
      no_goal := by
        intro x hx
        change x ∈ (s.reach source target edge level).nodes at hx
        rw [nodes_reach] at hx
        rcases List.mem_append.mp hx with hx | hx
        · exact h.no_goal x hx
        · obtain rfl := List.mem_singleton.mp hx
          exact hgoal
      closed := by
        intro x d y e hx hd he
        change y ∈ (s.reach source target edge level).nodes ∨ _
        rw [nodes_reach]
        rcases h.closed x d y e hx (hold (hdone x hx) hd) he with hy | ⟨htrue, hlimited⟩ | hy
        · exact .inl (List.mem_append_left _ hy)
        · refine .inr (.inl ⟨htrue, hlimited.imp_right fun hcount => ?_⟩)
          exact Nat.le_trans hcount (by simp [Search.push, Search.reach])
        · rcases List.mem_cons.mp hy with heq | hy
          · cases heq
            exact .inl (List.mem_append_right _ List.mem_cons_self)
          · exact .inr (.inr hy)
      truncated := by
        -- a limit that turned a node away would have turned this one away, too
        intro htrue
        rcases h.truncated htrue with hcut | ⟨x, d, y, hx, hd, -, -, hlimited⟩
        · exact .inl hcut
        · have hle := h.done_le x d hx hd
          exact absurd (hlimited.imp_left fun hdepth => Nat.le_trans hdepth hle) hlimits
      kept := h.kept }

/-- A search that has reached a goal. -/
def Found (adj : ν → List (ν × ε)) (roots : List ν) (goal : ν → Bool) (r : Search ν ε × Bool) :
    Prop :=
  r.2 = true ∧ Reached adj roots r.1 ∧ ∃ x ∈ r.1.nodes, goal x = true

/-- How many more nodes a search may go on from. -/
def Search.budget (maxNodes : Nat) (s : Search ν ε) : Nat :=
  s.queue.length + (maxNodes - s.depths.length)

omit [DecidableEq ν] in
theorem budget_queue {target : ν} {edge : ε} (hcount : s.depths.length < maxNodes) :
    ((s.reach source target edge level).push target).budget maxNodes = s.budget maxNodes := by
  simp only [Search.budget, Search.push, Search.reach, List.length_append, List.length_singleton]
  omega

/-- Looking at the neighbours of a node. -/
theorem expand_sound (rest : List (ν × ε)) :
    ∀ {s : Search ν ε}, Sound adj roots maxDepth maxNodes goal cut s done
        (rest.map fun t => (source, t.1, t.2)) level →
      (source, level) ∈ s.depths → source ∈ done → rest ⊆ adj source →
      ∀ r, expand maxDepth maxNodes goal source level rest s = r →
        (r.2 = false ∧ Sound adj roots maxDepth maxNodes goal cut r.1 done [] level ∧
          r.1.budget maxNodes ≤ s.budget maxNodes) ∨ Found adj roots goal r := by
  induction rest with
  | nil =>
    rintro s h - - - _ rfl
    exact .inl ⟨rfl, h, le_rfl⟩
  | cons head rest ih =>
    intro s h hlevel hdone hedges r hr
    obtain ⟨target, edge⟩ := head
    obtain ⟨hedge, hrest⟩ := List.cons_subset.mp hedges
    have hleft : ∀ x y e, (x, y, e) ∈ ((target, edge) :: rest).map (fun t => (source, t.1, t.2)) →
        (x, level) ∈ s.depths := by
      intro x y e hmem
      obtain ⟨t, -, heq⟩ := List.mem_map.mp hmem
      cases heq
      exact hlevel
    unfold expand at hr
    by_cases hold : target ∈ s.nodes
    · rw [if_pos hold] at hr
      exact ih (h.pass hold) hlevel hdone hrest r hr
    rw [if_neg hold] at hr
    by_cases hlimited : maxDepth ≤ level ∨ maxNodes ≤ s.depths.length
    · rw [if_pos hlimited] at hr
      exact ih (h.turnAway hdone hlevel hedge hold hlimited) hlevel hdone hrest r hr
    rw [if_neg hlimited] at hr
    by_cases hgoal : goal target = true
    · rw [if_pos hgoal] at hr
      subst hr
      refine .inr ⟨rfl, h.reach hleft hlevel hedge hold hlimited, target, ?_, hgoal⟩
      rw [nodes_reach]
      exact List.mem_append_right _ List.mem_cons_self
    · rw [if_neg hgoal] at hr
      have hqueued := h.queue hleft hedge hold hlimited (Bool.eq_false_iff.mpr hgoal)
      have hsource : (source, level) ∈ (s.reach source target edge level).depths :=
        mem_depths_reach.mpr (.inl hlevel)
      have hcount : s.depths.length < maxNodes := by omega
      have hbudget : ((s.reach source target edge level).push target).budget maxNodes =
          s.budget maxNodes := budget_queue hcount
      rw [← hbudget]
      exact ih hqueued hsource hdone hrest r hr

/-- Taking the next node from the queue. -/
theorem Sound.pop {queue : List ν} {d : Nat}
    (h : Sound adj roots maxDepth maxNodes goal cut s done [] level)
    (hqueue : s.queue = source :: queue) (hd : (source, d) ∈ s.depths) :
    Sound adj roots maxDepth maxNodes goal cut { s with queue } (done ++ [source])
      ((adj source).map fun t => (source, t.1, t.2)) d := by
  have hsource : source ∈ s.queue := hqueue ▸ List.mem_cons_self
  have hlevel : level ≤ d := h.queue_le source d hsource hd
  refine
    { nodup := h.nodup
      rooted := h.rooted
      distance := h.distance
      keys := h.keys
      linked := h.linked
      nodes := ?_
      count := h.count
      sorted := h.sorted
      done_le := fun x c hx hc => ?_
      queue_le := fun x c hx hc => ?_
      depths_le := fun x c hc => Nat.le_trans (h.depths_le x c hc) (by omega)
      no_goal := h.no_goal
      closed := fun x c y e hx hc he => ?_
      truncated := fun htrue => ?_
      kept := h.kept }
  · have hnodes := h.nodes
    rw [hqueue] at hnodes
    change s.nodes = (done ++ [source]) ++ queue
    simpa using hnodes
  · rcases List.mem_append.mp hx with hx | hx
    · exact Nat.le_trans (h.done_le x c hx hc) hlevel
    · obtain rfl := List.mem_singleton.mp hx
      exact Nat.le_of_eq (h.depth_unique hc hd)
  · -- the depths are in order, and the node stands before those that stay queued
    have hnodes : s.depths.map Prod.fst = done ++ source :: queue := hqueue ▸ h.nodes
    obtain ⟨first, last, hdepths, -, hlast⟩ := List.map_eq_append_iff.mp hnodes
    obtain ⟨head, tail, rfl, hhead, htail⟩ := List.map_eq_cons_iff.mp hlast
    have hpair := (List.pairwise_append.mp (hdepths ▸ h.sorted)).2.1
    have hmem : ∀ a ∈ head :: tail, a ∈ s.depths := fun a ha =>
      hdepths ▸ List.mem_append_right _ ha
    obtain ⟨entry, hentry, hkey⟩ := List.mem_map.mp (htail ▸ hx)
    have hle : head.2 ≤ entry.2 := (List.pairwise_cons.mp hpair).1 entry hentry
    have hheadd : head.2 = d :=
      h.depth_unique (hhead ▸ hmem head List.mem_cons_self) hd
    have hentryc : entry.2 = c :=
      h.depth_unique (hkey ▸ hmem entry (List.mem_cons_of_mem _ hentry)) hc
    omega
  · rcases List.mem_append.mp hx with hx | hx
    · rcases h.closed x c y e hx hc he with hy | hlim | hy
      · exact .inl hy
      · exact .inr (.inl hlim)
      · exact absurd hy List.not_mem_nil
    · obtain rfl := List.mem_singleton.mp hx
      exact .inr (.inr (List.mem_map.mpr ⟨(y, e), he, rfl⟩))
  · refine (h.truncated htrue).imp_right ?_
    rintro ⟨x, c, y, hx, hrest⟩
    exact ⟨x, c, y, List.mem_append_left _ hx, hrest⟩

/-- A whole search comes to its end, or to a goal. -/
theorem search_sound (fuel : Nat) :
    ∀ {s : Search ν ε} {done : List ν} {level : Nat},
      Sound adj roots maxDepth maxNodes goal cut s done [] level → s.budget maxNodes ≤ fuel →
      ∀ r, search maxDepth maxNodes goal adj fuel s = r →
        (r.2 = false ∧ r.1.queue = [] ∧
          ∃ done level, Sound adj roots maxDepth maxNodes goal cut r.1 done [] level) ∨
        Found adj roots goal r := by
  induction fuel with
  | zero =>
    rintro s done level h hfuel _ rfl
    have hempty : s.queue.length = 0 := by
      unfold Search.budget at hfuel
      omega
    exact .inl ⟨rfl, List.length_eq_zero_iff.mp hempty, done, level, h⟩
  | succ fuel ih =>
    intro s done level h hfuel r hr
    unfold search at hr
    cases hqueue : s.queue with
    | nil =>
      simp only [hqueue] at hr
      subst hr
      exact .inl ⟨rfl, hqueue, done, level, h⟩
    | cons source queue =>
      simp only [hqueue] at hr
      have hmem : source ∈ s.nodes :=
        h.nodes ▸ List.mem_append_right _ (hqueue ▸ List.mem_cons_self)
      obtain ⟨d, hd⟩ := mem_nodes.mp hmem
      rw [h.depth?_eq hd, Option.getD_some] at hr
      have hbudget : ({ s with queue } : Search ν ε).budget maxNodes + 1 = s.budget maxNodes := by
        simp only [Search.budget, hqueue, List.length_cons]
        omega
      rcases expand_sound (adj source) (h.pop hqueue hd) hd
        (List.mem_append_right _ List.mem_cons_self) (List.Subset.refl _) _ rfl with
        ⟨hfound, hsound, hless⟩ | hfound
      · rw [if_neg (by rw [hfound]; exact Bool.false_ne_true)] at hr
        exact ih hsound (by omega) r hr
      · rw [if_pos hfound.1] at hr
        subst hr
        exact .inr hfound

/-! ## From the start to the end -/

omit [DecidableEq ν] in
theorem nodes_start (roots : List ν) (truncated : Bool) :
    (start roots truncated : Search ν ε).nodes = roots := by
  simp [start, Search.nodes, Function.comp_def]

theorem sound_start (hroots : roots.Nodup) (hcount : roots.length ≤ maxNodes)
    (hgoal : ∀ x ∈ roots, goal x = false) (truncated : Bool) :
    Sound adj roots maxDepth maxNodes goal (truncated = true) (start roots truncated) [] [] 0 := by
  have hdepth : ∀ {x d}, (x, d) ∈ (start roots truncated : Search ν ε).depths →
      x ∈ roots ∧ d = 0 := by
    intro x d hd
    obtain ⟨y, hy, heq⟩ := List.mem_map.mp hd
    cases heq
    exact ⟨hy, rfl⟩
  refine
    { nodup := (nodes_start roots truncated).symm ▸ hroots
      rooted := fun x hx => (nodes_start roots truncated).symm ▸ hx
      distance := fun x d hd => ?_
      keys := fun l hl => absurd hl List.not_mem_nil
      linked := fun x d hd => ?_
      nodes := nodes_start roots truncated
      count := by simpa [start] using hcount
      sorted := ?_
      done_le := fun x d hx => absurd hx List.not_mem_nil
      queue_le := fun x d _ _ => Nat.zero_le d
      depths_le := fun x d hd => ?_
      no_goal := fun x hx => hgoal x (nodes_start roots truncated ▸ hx)
      closed := fun x d y e hx => absurd hx List.not_mem_nil
      truncated := fun htrue => .inl htrue
      kept := id }
  · obtain ⟨hx, rfl⟩ := hdepth hd
    exact ⟨.root hx, fun m _ => Nat.zero_le m⟩
  · exact absurd (hdepth hd).2 (Nat.succ_ne_zero d)
  · refine List.pairwise_map.mpr (List.Pairwise.imp ?_ hroots)
    exact fun _ => le_rfl
  · have := (hdepth hd).2
    omega

theorem reached_start (hroots : roots.Nodup) (truncated : Bool) :
    Reached adj roots (start roots truncated) := by
  have hsound : Sound adj roots 0 roots.length (fun _ => false) (truncated = true)
      (start roots truncated) [] [] 0 := sound_start hroots le_rfl (fun _ _ => rfl) truncated
  exact hsound.toReached

/-- A search that has gone on from all that it reached is truncated exactly where it was from
the start, or where a walk leads to a node it left out. -/
theorem Sound.truncated_iff (h : Sound adj roots maxDepth maxNodes goal cut s done [] level)
    (hqueue : s.queue = []) :
    s.truncated = true ↔ cut ∨ ∃ n x, Walk (Adjacent adj) roots n x ∧ x ∉ s.nodes := by
  have hdone : s.nodes = done := by
    have hnodes := h.nodes
    rwa [hqueue, List.append_nil] at hnodes
  constructor
  · intro htrue
    refine (h.truncated htrue).imp_right ?_
    rintro ⟨x, d, y, -, hd, hxy, hy, -⟩
    exact ⟨d + 1, y, .step (h.distance x d hd).1 hxy, hy⟩
  · rintro (hcut | ⟨n, x, hx, hout⟩)
    · exact h.kept hcut
    · induction hx with
      | root hx => exact absurd (h.rooted hx) hout
      | @step n x y hx hxy ih =>
        by_cases hmem : x ∈ s.nodes
        · obtain ⟨d, hd⟩ := mem_nodes.mp hmem
          obtain ⟨e, he⟩ := hxy
          rcases h.closed x d y e (hdone ▸ hmem) hd he with hy | ⟨htrue, -⟩ | hy
          · exact absurd hy hout
          · exact htrue
          · exact absurd hy List.not_mem_nil
        · exact ih hmem

/-- A search from some roots ends with all it reached at its distance, and truncated exactly where
it was from the start or leaves out what a walk leads to; or it has found a goal. -/
theorem search_ended {truncated : Bool} {r : Search ν ε × Bool} (hroots : roots.Nodup)
    (hcount : roots.length ≤ maxNodes) (hgoal : ∀ x ∈ roots, goal x = false)
    (hr : search maxDepth maxNodes goal adj (roots.length + maxNodes) (start roots truncated) = r) :
    (r.2 = false ∧ Reached adj roots r.1 ∧ r.1.nodes.length ≤ maxNodes ∧
      (∀ x ∈ r.1.nodes, goal x = false) ∧
      (r.1.truncated = true ↔
        truncated = true ∨ ∃ n x, Walk (Adjacent adj) roots n x ∧ x ∉ r.1.nodes)) ∨
    Found adj roots goal r := by
  have hbudget :
      (start roots truncated : Search ν ε).budget maxNodes ≤ roots.length + maxNodes := by
    simp only [Search.budget, start, List.length_map]
    omega
  rcases search_sound _ (sound_start hroots hcount hgoal truncated) hbudget r hr with
    ⟨hended, hqueue, done, level, hsound⟩ | hfound
  · have hlength : r.1.nodes.length ≤ maxNodes := by
      simpa [Search.nodes] using hsound.count
    exact .inl ⟨hended, hsound.toReached, hlength, hsound.no_goal, hsound.truncated_iff hqueue⟩
  · exact .inr hfound

/-- The way that is traced to a node is a path as long as the node is deep. -/
theorem Reached.trace {root : ν} (h : Reached adj [root] s) (fuel : Nat) :
    ∀ {x z : ν} {d : Nat} {nodes : List ν} {edges : List ε}, (x, d) ∈ s.depths → d ≤ fuel →
      Path (fun x e y => (y, e) ∈ adj x) x nodes edges z →
      ∃ nodes' edges', s.trace root fuel x nodes edges = some (nodes', edges') ∧
        Path (fun x e y => (y, e) ∈ adj x) root nodes' edges' z ∧
        edges'.length = edges.length + d := by
  have hroot : ∀ {d}, (root, d) ∈ s.depths → d = 0 := fun hd =>
    Nat.le_zero.mp ((h.distance root _ hd).2 0 (.root List.mem_cons_self))
  induction fuel with
  | zero =>
    intro x z d nodes edges hd hfuel hpath
    obtain rfl := Nat.le_zero.mp hfuel
    obtain hx := (h.distance x 0 hd).1
    cases hx with
    | root hx =>
      obtain rfl := List.mem_singleton.mp hx
      exact ⟨nodes, edges, by simp [Search.trace], hpath, rfl⟩
  | succ fuel ih =>
    intro x z d nodes edges hd hfuel hpath
    unfold Search.trace
    by_cases hx : x = root
    · subst hx
      obtain rfl := hroot hd
      rw [if_pos rfl]
      exact ⟨nodes, edges, rfl, hpath, rfl⟩
    · rw [if_neg hx]
      cases d with
      | zero =>
        cases (h.distance x 0 hd).1 with
        | root hmem => exact absurd (List.mem_singleton.mp hmem) hx
      | succ d =>
        obtain ⟨y, e, hparent, he, hy⟩ := h.linked x d hd
        obtain ⟨nodes', edges', htrace, hpath', hlength⟩ :=
          ih hy (by omega) (.cons he hpath)
        refine ⟨nodes', edges', ?_, hpath', ?_⟩
        · simpa only [hparent] using htrace
        · rw [hlength, List.length_cons]
          omega

end Lemmas

end Lib.Breadth
