import Orqalis.Lib.Chains
import Orqalis.Memory.Curated

/-!
# Validating the lifecycle document

The document's validator is two loops. The first collects the transitions by their predecessors
and refuses two that share an end; the second follows the successors from each predecessor and
refuses a walk that comes back to a record. Nothing bounds the inner loop but the records it
has visited.

It ends for every list of transitions, and accepts those where "is superseded by" makes
disjoint simple paths (`transitions_accepted_iff`).
-/

namespace Orqalis

open Lib Lib.Walk Relation

namespace MemoryLifecycleDocument

/-! ## The validator -/

/-- The first loop: the transitions by their predecessors. -/
def collect : List MemorySupersession → List (MemoryId × MemoryId) → List MemoryId →
    Except Error (List (MemoryId × MemoryId))
  | [], edges, _ => .ok edges
  | entry :: rest, edges, successors =>
    if entry.predecessor ∈ edges.map Prod.fst ∨ entry.successor ∈ successors then
      .error (.input "Memory lifecycle contains competing transitions")
    else collect rest (edges ++ [(entry.predecessor, entry.successor)])
      (entry.successor :: successors)

/-- The walk along the successors, until it leaves the transitions. The fuel bounds its rounds,
and `none` is a walk that is not over then. -/
def follow (edges : List (MemoryId × MemoryId)) :
    Nat → List MemoryId → MemoryId → Option (Except Error Unit)
  | 0, _, _ => none
  | fuel + 1, visited, current =>
    match next edges current with
    | none => some (.ok ())
    | some successor =>
      if current ∈ visited then some (.error (.input "Memory supersession cycle"))
      else follow edges fuel (current :: visited) successor

/-- The second loop: a walk from each of some records. -/
def followAll (edges : List (MemoryId × MemoryId)) (fuel : Nat) :
    List MemoryId → Option (Except Error Unit)
  | [] => some (.ok ())
  | start :: rest =>
    match follow edges fuel [] start with
    | some (.ok ()) => followAll edges fuel rest
    | stopped => stopped

/-- `valid_transitions`, with a bound on the rounds of each walk. -/
def validate (fuel : Nat) (supersessions : List MemorySupersession) :
    Option (Except Error Unit) :=
  match collect supersessions [] [] with
  | .error e => some (.error e)
  | .ok edges => followAll edges fuel (edges.map Prod.fst)

/-! ## The first loop -/

/-- The loop comes to its end where no transition shares an end with one before it. -/
theorem collect_eq_ok {supersessions : List MemorySupersession}
    {edges result : List (MemoryId × MemoryId)} {successors : List MemoryId} :
    collect supersessions edges successors = .ok result ↔
      result = edges ++ arrows supersessions ∧
      ((supersessions.map MemorySupersession.predecessor).Nodup ∧
        ∀ e ∈ supersessions, e.predecessor ∉ edges.map Prod.fst) ∧
      (supersessions.map MemorySupersession.successor).Nodup ∧
        ∀ e ∈ supersessions, e.successor ∉ successors := by
  induction supersessions generalizing edges successors with
  | nil => simp [collect, arrows, eq_comm]
  | cons entry rest ih =>
    unfold collect
    split_ifs with hcompete
    · constructor
      · intro h
        cases h
      · rintro ⟨-, ⟨-, hpredecessor⟩, -, hsuccessor⟩
        rcases hcompete with h | h
        · exact absurd h (hpredecessor entry List.mem_cons_self)
        · exact absurd h (hsuccessor entry List.mem_cons_self)
    · rw [not_or] at hcompete
      obtain ⟨hpredecessor, hsuccessor⟩ := hcompete
      rw [ih]
      simp only [List.map_append, List.map_cons, List.map_nil, List.mem_append, List.mem_cons,
        List.not_mem_nil, or_false, not_or, List.nodup_cons, List.mem_map, arrows,
        List.append_assoc, List.cons_append, List.nil_append]
      constructor
      · rintro ⟨rfl, ⟨hnodup, hkeys⟩, hunique, hends⟩
        refine ⟨rfl, ⟨⟨?_, hnodup⟩, ?_⟩, ⟨?_, hunique⟩, ?_⟩
        · rintro ⟨e, he, heq⟩
          exact (hkeys e he).2 heq
        · rintro e (rfl | he)
          · simpa using hpredecessor
          · exact (hkeys e he).1
        · rintro ⟨e, he, heq⟩
          exact (hends e he).1 heq
        · rintro e (rfl | he)
          · exact hsuccessor
          · exact (hends e he).2
      · rintro ⟨rfl, ⟨⟨hfirst, hnodup⟩, hkeys⟩, ⟨hlast, hunique⟩, hends⟩
        refine ⟨rfl, ⟨hnodup, fun e he => ⟨hkeys e (.inr he), ?_⟩⟩, hunique, fun e he =>
          ⟨?_, hends e (.inr he)⟩⟩
        · exact fun heq => hfirst ⟨e, he, heq⟩
        · exact fun heq => hlast ⟨e, he, heq⟩

/-! ## The second loop -/

section Follow

variable {edges : List (MemoryId × MemoryId)} {fuel : Nat}

/-- A walk is over before its rounds are more than the transitions. -/
theorem follow_eq {visited : List MemoryId} (current : MemoryId) (hnodup : visited.Nodup)
    (hsub : visited ⊆ edges.map Prod.fst) (hfuel : edges.length < fuel + visited.length) :
    follow edges fuel visited current =
      some (if open? edges fuel visited current then .ok ()
        else .error (.input "Memory supersession cycle")) := by
  have hlength := visited_le hnodup hsub
  induction fuel generalizing visited current with
  | zero => omega
  | succ fuel ih =>
    unfold follow
    cases hnext : next edges current with
    | none => simp [open?, hnext]
    | some successor =>
      by_cases hmem : current ∈ visited
      · simp [open?, hnext, hmem]
      · have hfresh := List.nodup_cons.mpr ⟨hmem, hnodup⟩
        have hleft : current :: visited ⊆ edges.map Prod.fst :=
          List.cons_subset.mpr ⟨List.mem_map_of_mem (arrow_of_next hnext), hsub⟩
        have hrest := ih successor hfresh hleft (by rw [List.length_cons]; omega)
          (visited_le hfresh hleft)
        simp [open?, hnext, hmem, hrest]

/-- The walks are over, and the loop with them. -/
theorem followAll_eq (hfuel : edges.length < fuel) (starts : List MemoryId) :
    followAll edges fuel starts =
      some (if starts.all (open? edges (edges.length + 1) []) then .ok ()
        else .error (.input "Memory supersession cycle")) := by
  induction starts with
  | nil => rfl
  | cons start rest ih =>
    have hwalk : follow edges fuel [] start = _ :=
      follow_eq start List.nodup_nil (List.nil_subset _) (by simpa using hfuel)
    have hsame : open? edges fuel [] start = open? edges (edges.length + 1) [] start :=
      open_fuel start List.nodup_nil (List.nil_subset _) (by simpa using hfuel) (by simp)
    rw [hsame] at hwalk
    unfold followAll
    cases hopen : open? edges (edges.length + 1) [] start with
    | true => simp [hwalk, hopen, ih]
    | false => simp [hwalk, hopen]

end Follow

/-! ## The validator's answer -/

/-- What the validator answers. -/
def outcome (supersessions : List MemorySupersession) : Except Error Unit :=
  match collect supersessions [] [] with
  | .error e => .error e
  | .ok edges => if acyclic edges then .ok () else .error (.input "Memory supersession cycle")

variable {supersessions : List MemorySupersession}

theorem length_of_collect {edges : List (MemoryId × MemoryId)}
    (h : collect supersessions [] [] = .ok edges) : edges.length = supersessions.length := by
  obtain ⟨rfl, -⟩ := collect_eq_ok.mp h
  simp [arrows]

theorem validate_eq {fuel : Nat} (hfuel : supersessions.length < fuel) :
    validate fuel supersessions = some (outcome supersessions) := by
  unfold validate outcome
  cases h : collect supersessions [] [] with
  | error e => rfl
  | ok edges =>
    have hlength := length_of_collect h
    have hall : (edges.map Prod.fst).all (open? edges (edges.length + 1) []) = acyclic edges := by
      rw [List.all_map]
      rfl
    have hloop : followAll edges fuel (edges.map Prod.fst) = _ :=
      followAll_eq (by omega) (edges.map Prod.fst)
    rw [hall] at hloop
    exact hloop

/-- The validator accepts the transitions that a document is made of. -/
theorem outcome_eq_ok : outcome supersessions = .ok () ↔ validTransitions supersessions := by
  unfold outcome validTransitions
  simp only [Bool.and_eq_true, decide_eq_true_eq]
  cases h : collect supersessions [] [] with
  | error e =>
    refine ⟨fun hok => absurd hok (by simp), fun hvalid => ?_⟩
    have hok : collect supersessions [] [] = .ok (arrows supersessions) :=
      collect_eq_ok.mpr ⟨rfl, ⟨hvalid.1.1, by simp⟩, hvalid.1.2, by simp⟩
    rw [h] at hok
    cases hok
  | ok edges =>
    obtain ⟨rfl, ⟨hpredecessors, -⟩, hsuccessors, -⟩ := collect_eq_ok.mp h
    rw [List.nil_append]
    by_cases hacyclic : acyclic (arrows supersessions)
    · simp [hacyclic, hpredecessors, hsuccessors]
    · simp [hacyclic]

/-- The relation "is superseded by" of some transitions is a union of disjoint simple paths. -/
def DisjointPaths (supersessions : List MemorySupersession) : Prop :=
  ∃ paths, Chains.Covers paths (arrows supersessions)

theorem map_fst_arrows (supersessions : List MemorySupersession) :
    (arrows supersessions).map Prod.fst =
      supersessions.map MemorySupersession.predecessor := by
  simp [arrows]

theorem map_snd_arrows (supersessions : List MemorySupersession) :
    (arrows supersessions).map Prod.snd = supersessions.map MemorySupersession.successor := by
  simp [arrows]

/-- No record is superseded twice, none supersedes twice, and none comes to supersede itself. -/
theorem validTransitions_iff : validTransitions supersessions ↔
    (supersessions.map MemorySupersession.predecessor).Nodup ∧
      (supersessions.map MemorySupersession.successor).Nodup ∧
      ∀ i, ¬ TransGen (Arrow (arrows supersessions)) i i := by
  unfold validTransitions
  rw [Bool.and_eq_true, Bool.and_eq_true, decide_eq_true_eq, decide_eq_true_eq, and_assoc]
  refine and_congr_right fun hpredecessors => and_congr_right fun _ => ?_
  exact acyclic_iff (by rwa [map_fst_arrows])

/-- The validator ends for every list of transitions, and accepts exactly the lists that make
disjoint simple paths. -/
theorem transitions_accepted_iff (supersessions : List MemorySupersession) :
    ∃ answer, (∀ fuel, supersessions.length < fuel → validate fuel supersessions = some answer) ∧
      (answer = .ok () ↔ DisjointPaths supersessions) ∧
      (answer = .ok () ↔
        (supersessions.map MemorySupersession.predecessor).Nodup ∧
          (supersessions.map MemorySupersession.successor).Nodup ∧
          ∀ i, ¬ TransGen (Arrow (arrows supersessions)) i i) := by
  have hpaths : DisjointPaths supersessions ↔ _ := Chains.covers_iff
  rw [map_fst_arrows, map_snd_arrows] at hpaths
  have haccepts : outcome supersessions = .ok () ↔ _ := outcome_eq_ok.trans validTransitions_iff
  exact ⟨outcome supersessions, fun _ => validate_eq, haccepts.trans hpaths.symm, haccepts⟩

end MemoryLifecycleDocument

end Orqalis
