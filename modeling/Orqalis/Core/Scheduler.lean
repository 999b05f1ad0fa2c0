import Mathlib.Data.List.Dedup
import Mathlib.Data.List.Flatten
import Mathlib.Logic.Relation
import Orqalis.Core.PlanRevision

/-!
# The scheduler

What the check of a plan means for its execution. Among any tasks of a plan that passed
`validateDag` one waits for none of the others (`exists_first`): the plan has a static order, and
while not every task succeeded, one is ready.

The executor runs the roles one after the other, each in the static order. For a plan that also
passed `validateRoles` no dependency runs against that (`role_waves`).
-/

namespace Orqalis

open Relation

namespace TaskPlan

variable {p : TaskPlan}

/-! ## Dependencies -/

/-- One task waits for another. -/
def WaitsFor (p : TaskPlan) (a b : UUID) : Prop := b ∈ p.prerequisites a

theorem waitsFor_iff {a b : UUID} :
    p.WaitsFor a b ↔ ∃ e ∈ p.dependencies, e.taskId = a ∧ e.dependsOnTaskId = b := by
  simp [WaitsFor, prerequisites, and_assoc]

/-- Tasks that all wait for one of them are never taken away. -/
theorem subset_peel {S : List UUID} (hS : ∀ a ∈ S, ∃ b ∈ S, p.WaitsFor a b) (rounds : Nat)
    {rest : List UUID} (hrest : S ⊆ rest) : S ⊆ p.peel rounds rest := by
  induction rounds generalizing rest with
  | zero => exact hrest
  | succ rounds ih =>
    apply ih
    intro a ha
    obtain ⟨b, hb, hab⟩ := hS a ha
    exact List.mem_filter.mpr ⟨hrest ha, List.any_eq_true.mpr ⟨b, hab, by simpa using hrest hb⟩⟩

/-- Among some tasks of a valid plan, one waits for none of them. -/
theorem Valid.exists_first (h : p.Valid) {S : List UUID} (hS : S ⊆ p.ids) (hne : S ≠ []) :
    ∃ a ∈ S, ∀ b ∈ S, ¬ p.WaitsFor a b := by
  by_contra hnone
  push Not at hnone
  have hsub := subset_peel hnone p.tasks.length hS
  have hpeeled : p.peel p.tasks.length p.ids = [] := List.isEmpty_iff.mp h.acyclic
  rw [hpeeled] at hsub
  exact hne (List.subset_nil.mp hsub)

/-- A task of a valid plan waits for tasks of the plan. -/
theorem Valid.waits (h : p.Valid) {a b : UUID} (hab : p.WaitsFor a b) : b ∈ p.ids := by
  obtain ⟨e, he, -, rfl⟩ := waitsFor_iff.mp hab
  exact (h.edges e he).2

/-- Two tasks of a valid plan with one identifier are one task. -/
theorem Valid.eq_of_id (h : p.Valid) {t u : Task} (ht : t ∈ p.tasks) (hu : u ∈ p.tasks)
    (hid : t.id = u.id) : t = u :=
  List.inj_on_of_nodup_map h.nodup ht hu hid

/-! ## Progress -/

/-- The tasks that did not succeed. -/
def unfinished (p : TaskPlan) : List UUID :=
  (p.tasks.filter fun t => t.status ≠ .succeeded).map Task.id

/-- Whether every task succeeded, or has yet to begin. -/
def Schedulable (p : TaskPlan) : Prop :=
  ∀ t ∈ p.tasks, t.status = .succeeded ∨ t.status = .pending ∨ t.status = .ready

/-- A task once some tasks succeeded. -/
def completed (selected : List Task) (t : Task) : Task :=
  if t.id ∈ selected.map Task.id then { t with status := .succeeded } else t

/-- The plan once some tasks succeeded. -/
def complete (p : TaskPlan) (selected : List Task) : TaskPlan :=
  { p with tasks := p.tasks.map (completed selected) }

/-- Completing tasks that are ready, a selection at a time. -/
inductive Completion : TaskPlan → List (List Task) → TaskPlan → Prop
  | nil (p : TaskPlan) : Completion p [] p
  | cons {p q : TaskPlan} {selected : List Task} {later : List (List Task)}
      (nonempty : selected ≠ []) (ready : selected ⊆ readyTasks p)
      (rest : Completion (p.complete selected) later q) : Completion p (selected :: later) q

theorem mem_unfinished {id : UUID} :
    id ∈ p.unfinished ↔ ∃ t ∈ p.tasks, t.status ≠ .succeeded ∧ t.id = id := by
  simp [unfinished, and_assoc]

theorem mem_succeeded {id : UUID} :
    id ∈ p.succeeded ↔ ∃ t ∈ p.tasks, t.status = .succeeded ∧ t.id = id := by
  simp [succeeded, and_assoc]

theorem mem_readyTasks {t : Task} :
    t ∈ readyTasks p ↔ t ∈ p.tasks ∧ (t.status = .pending ∨ t.status = .ready) ∧
      ∀ q ∈ p.prerequisites t.id, q ∈ p.succeeded := by
  simp [readyTasks, satisfied]

/-- While a task is left, one is ready. -/
theorem Valid.readyTasks_ne_nil (h : p.Valid) (hs : p.Schedulable) (hleft : p.unfinished ≠ []) :
    readyTasks p ≠ [] := by
  have hsub : p.unfinished ⊆ p.ids := by
    intro id hid
    obtain ⟨t, ht, -, rfl⟩ := mem_unfinished.mp hid
    exact List.mem_map_of_mem ht
  obtain ⟨a, ha, hfirst⟩ := h.exists_first hsub hleft
  obtain ⟨t, ht, hopen, rfl⟩ := mem_unfinished.mp ha
  have hready : t ∈ readyTasks p := by
    refine mem_readyTasks.mpr ⟨ht, (hs t ht).resolve_left hopen, ?_⟩
    intro q hq
    obtain ⟨u, hu, rfl⟩ := List.mem_map.mp (h.waits hq)
    by_cases hdone : u.status = .succeeded
    · exact mem_succeeded.mpr ⟨u, hu, hdone, rfl⟩
    · exact absurd hq (hfirst u.id (mem_unfinished.mpr ⟨u, hu, hdone, rfl⟩))
  exact List.ne_nil_of_mem hready

@[simp] theorem completed_id (selected : List Task) (t : Task) :
    (completed selected t).id = t.id := by
  unfold completed
  split_ifs <;> rfl

theorem completed_status (selected : List Task) (t : Task) :
    (completed selected t).status = .succeeded ↔
      t.id ∈ selected.map Task.id ∨ t.status = .succeeded := by
  unfold completed
  split_ifs with h <;> simp [h]

theorem ids_complete (selected : List Task) : (p.complete selected).ids = p.ids := by
  simp only [ids, complete, List.map_map]
  exact List.map_congr_left fun t _ => completed_id selected t

theorem peel_complete (selected : List Task) (rounds : Nat) (rest : List UUID) :
    (p.complete selected).peel rounds rest = p.peel rounds rest := by
  induction rounds generalizing rest with
  | zero => rfl
  | succ rounds ih => exact ih _

/-- A valid plan stays valid. -/
theorem Valid.complete (h : p.Valid) (selected : List Task) : (p.complete selected).Valid where
  version_pos := h.version_pos
  nonempty := by simpa [TaskPlan.complete] using h.nonempty
  nodup := by
    rw [ids_complete]
    exact h.nodup
  own := by
    intro t ht
    obtain ⟨u, hu, rfl⟩ := List.mem_map.mp ht
    unfold completed
    split_ifs <;> exact h.own u hu
  edges_nodup := h.edges_nodup
  edges := by
    rw [ids_complete]
    exact h.edges
  types := h.types
  acyclic := by
    have hlength : (p.complete selected).tasks.length = p.tasks.length := by
      simp [TaskPlan.complete]
    unfold TaskPlan.acyclic
    rw [peel_complete, ids_complete, hlength]
    exact h.acyclic

theorem Schedulable.complete (hs : p.Schedulable) (selected : List Task) :
    (p.complete selected).Schedulable := by
  intro t ht
  obtain ⟨u, hu, rfl⟩ := List.mem_map.mp ht
  unfold completed
  split_ifs
  · exact .inl rfl
  · exact hs u hu

/-- What is left once some tasks succeeded. -/
theorem unfinished_complete (selected : List Task) :
    (p.complete selected).unfinished =
      p.unfinished.filter fun id => id ∉ selected.map Task.id := by
  unfold unfinished TaskPlan.complete
  induction p.tasks with
  | nil => rfl
  | cons t tasks ih =>
    have hstatus := completed_status selected t
    by_cases hsel : t.id ∈ selected.map Task.id
    · have hdone : (completed selected t).status = .succeeded := hstatus.mpr (.inl hsel)
      by_cases hopen : t.status = .succeeded <;> simp_all
    · by_cases hopen : t.status = .succeeded <;> simp_all

/-- A selection of ready tasks leaves less. -/
theorem unfinished_complete_lt {selected : List Task} (hne : selected ≠ [])
    (hready : selected ⊆ readyTasks p) :
    (p.complete selected).unfinished.length < p.unfinished.length := by
  obtain ⟨t, ht⟩ := List.exists_mem_of_ne_nil selected hne
  obtain ⟨hmem, hstatus, -⟩ := mem_readyTasks.mp (hready ht)
  have hopen : t.status ≠ .succeeded := by
    rcases hstatus with h | h <;> simp [h]
  rw [unfinished_complete]
  refine List.length_filter_lt_length_iff_exists.mpr
    ⟨t.id, mem_unfinished.mpr ⟨t, hmem, hopen, rfl⟩, ?_⟩
  simpa using ⟨t, ht, rfl⟩

/-- What holds after any selections. -/
theorem Completion.ends {q : TaskPlan} {selections : List (List Task)}
    (h : Completion p selections q) (hv : p.Valid) (hs : p.Schedulable) :
    selections.length + q.unfinished.length ≤ p.unfinished.length ∧ q.Valid ∧ q.Schedulable := by
  induction h with
  | nil p => exact ⟨by simp, hv, hs⟩
  | cons hne hready _ ih =>
    obtain ⟨hlength, hq⟩ := ih (hv.complete _) (hs.complete _)
    have hless := unfinished_complete_lt hne hready
    refine ⟨?_, hq⟩
    rw [List.length_cons]
    omega

/-- While not every task succeeded one is ready, what is ready waits for nothing, and completing
ready tasks comes to an end, at which every task succeeded. -/
theorem scheduler_progress {p : TaskPlan} (hvalid : p.validateDag = .ok ())
    (hstatus : p.Schedulable) :
    ((∃ t ∈ p.tasks, t.status ≠ .succeeded) → readyTasks p ≠ []) ∧
    (∀ t ∈ readyTasks p, t.status ≠ .succeeded ∧
      ∀ q ∈ p.prerequisites t.id, ∃ u ∈ p.tasks, u.id = q ∧ u.status = .succeeded) ∧
    ∀ selections q, Completion p selections q →
      selections.length ≤ p.tasks.length ∧
      (readyTasks q ≠ [] ∨ ∀ t ∈ q.tasks, t.status = .succeeded) := by
  have hv := validateDag_eq_ok.mp hvalid
  refine ⟨?_, ?_, ?_⟩
  · rintro ⟨t, ht, hopen⟩
    exact hv.readyTasks_ne_nil hstatus
      (List.ne_nil_of_mem (mem_unfinished.mpr ⟨t, ht, hopen, rfl⟩))
  · intro t ht
    obtain ⟨-, hopen, hdone⟩ := mem_readyTasks.mp ht
    refine ⟨by rcases hopen with h | h <;> simp [h], fun q hq => ?_⟩
    obtain ⟨u, hu, husucceeded, rfl⟩ := mem_succeeded.mp (hdone q hq)
    exact ⟨u, hu, rfl, husucceeded⟩
  · intro selections q h
    obtain ⟨hlength, hq, hqs⟩ := h.ends hv hstatus
    have hleft : p.unfinished.length ≤ p.tasks.length := by
      unfold unfinished
      rw [List.length_map]
      exact List.length_filter_le _ _
    refine ⟨by omega, ?_⟩
    by_cases hall : q.unfinished = []
    · refine .inr fun t ht => ?_
      by_contra hopen
      have := mem_unfinished.mpr ⟨t, ht, hopen, rfl⟩
      rw [hall] at this
      cases this
    · exact .inl (hq.readyTasks_ne_nil hqs hall)

/-! ## The order of execution -/

/-- What a topological sorter answers for a plan: every task once, each after those it waits
for. -/
structure StaticOrder (p : TaskPlan) where
  order : List UUID
  perm : order.Perm p.ids
  sorted : ∀ a b, p.WaitsFor a b → [b, a].Sublist order

/-- Some tasks of a valid plan can be put in order. -/
theorem Valid.exists_order (h : p.Valid) (n : Nat) {S : List UUID} (hn : S.length = n)
    (hS : S ⊆ p.ids) (hnodup : S.Nodup) :
    ∃ order : List UUID, order.Perm S ∧
      ∀ a ∈ S, ∀ b ∈ S, p.WaitsFor a b → [b, a].Sublist order := by
  induction n generalizing S with
  | zero =>
    obtain rfl := List.length_eq_zero_iff.mp hn
    exact ⟨[], .nil, by simp⟩
  | succ n ih =>
    have hne : S ≠ [] := by
      rintro rfl
      cases hn
    obtain ⟨a, ha, hfirst⟩ := h.exists_first hS hne
    have hlength : (S.erase a).length = n := by
      rw [List.length_erase_of_mem ha, hn]
      rfl
    obtain ⟨order, hperm, hsorted⟩ := ih hlength
      (fun x hx => hS (List.mem_of_mem_erase hx)) (hnodup.erase a)
    refine ⟨a :: order, (hperm.cons a).trans (List.perm_cons_erase ha).symm, ?_⟩
    intro x hx y hy hxy
    have hxa : x ≠ a := by
      rintro rfl
      exact hfirst y hy hxy
    have hx' : x ∈ S.erase a := (List.mem_erase_of_ne hxa).mpr hx
    by_cases hya : y = a
    · subst hya
      exact (List.singleton_sublist.mpr (hperm.mem_iff.mpr hx')).cons_cons y
    · exact (hsorted x hx' y ((List.mem_erase_of_ne hya).mpr hy) hxy).cons a

/-- A valid plan has a static order. -/
theorem Valid.staticOrder (h : p.Valid) : Nonempty (StaticOrder p) := by
  obtain ⟨order, hperm, hsorted⟩ := h.exists_order _ rfl (List.Subset.refl _) h.nodup
  refine ⟨⟨order, hperm, fun a b hab => hsorted a ?_ b (h.waits hab) hab⟩⟩
  obtain ⟨e, he, rfl, -⟩ := waitsFor_iff.mp hab
  exact (h.edges e he).1

/-- The task of an identifier. -/
def task? (p : TaskPlan) (id : UUID) : Option Task := p.tasks.find? fun t => t.id = id

/-- The tasks of a plan in a static order. -/
def orderedTasks (p : TaskPlan) (o : StaticOrder p) : List Task := o.order.filterMap p.task?

/-- The roles the executor runs, one after the other. -/
def waveRoles : List AgentRole := [.repair, .developer, .tester, .reviewer]

/-- The tasks of a role, in a static order. -/
def roleWave (p : TaskPlan) (o : StaticOrder p) (role : AgentRole) : List Task :=
  (p.orderedTasks o).filter fun t => t.preferredRole = role

/-- The tasks in the order the executor runs them. -/
def executionOrder (p : TaskPlan) (o : StaticOrder p) : List Task :=
  waveRoles.flatMap (p.roleWave o)

theorem Valid.task?_eq_some (h : p.Valid) {id : UUID} {t : Task} :
    p.task? id = some t ↔ t ∈ p.tasks ∧ t.id = id := by
  unfold task?
  constructor
  · intro hfind
    exact ⟨List.mem_of_find?_eq_some hfind, by simpa using List.find?_some hfind⟩
  · rintro ⟨ht, rfl⟩
    have hsome : (p.tasks.find? fun u => u.id = t.id).isSome := by
      rw [List.find?_isSome]
      exact ⟨t, ht, by simp⟩
    obtain ⟨u, hu⟩ := Option.isSome_iff_exists.mp hsome
    have hid : u.id = t.id := by simpa using List.find?_some hu
    rw [hu, h.eq_of_id (List.mem_of_find?_eq_some hu) ht hid]

/-- The identifiers of the ordered tasks are the static order. -/
theorem Valid.map_id_orderedTasks (h : p.Valid) (o : StaticOrder p) :
    (p.orderedTasks o).map Task.id = o.order := by
  have hall (order : List UUID) (hmem : order ⊆ p.ids) :
      (order.filterMap p.task?).map Task.id = order := by
    induction order with
    | nil => rfl
    | cons id order ih =>
      obtain ⟨hfirst, hrest⟩ := List.cons_subset.mp hmem
      obtain ⟨t, ht, hid⟩ := List.mem_map.mp hfirst
      have hfind : p.task? id = some t := h.task?_eq_some.mpr ⟨ht, hid⟩
      rw [List.filterMap_cons_some hfind, List.map_cons, hid, ih hrest]
  exact hall o.order o.perm.subset

theorem Valid.mem_orderedTasks (h : p.Valid) (o : StaticOrder p) {t : Task} :
    t ∈ p.orderedTasks o ↔ t ∈ p.tasks := by
  unfold orderedTasks
  rw [List.mem_filterMap]
  constructor
  · rintro ⟨id, -, hfind⟩
    exact (h.task?_eq_some.mp hfind).1
  · intro ht
    exact ⟨t.id, o.perm.mem_iff.mpr (List.mem_map_of_mem ht), h.task?_eq_some.mpr ⟨ht, rfl⟩⟩

/-- A task comes after the one it waits for. -/
theorem Valid.orderedTasks_sorted (h : p.Valid) (o : StaticOrder p) {t u : Task}
    (ht : t ∈ p.tasks) (hu : u ∈ p.tasks) (htu : p.WaitsFor t.id u.id) :
    [u, t].Sublist (p.orderedTasks o) := by
  have hsub := (o.sorted t.id u.id htu).filterMap p.task?
  rwa [List.filterMap_cons_some (h.task?_eq_some.mpr ⟨hu, rfl⟩),
    List.filterMap_cons_some (h.task?_eq_some.mpr ⟨ht, rfl⟩)] at hsub

end TaskPlan

/-! ## Waves of roles -/

section Waves

variable {α κ : Type*} [DecidableEq κ] {key : α → κ}

/-- Gathering a list by keys keeps the order of two members whose keys are equal or in order. -/
theorem pair_sublist_flatMap {l : List α} {keys : List κ} {a b : α} (hab : [a, b].Sublist l)
    (hkeys : key a = key b ∧ key a ∈ keys ∨ [key a, key b].Sublist keys) :
    [a, b].Sublist (keys.flatMap fun k => l.filter fun x => key x = k) := by
  rcases hkeys with ⟨heq, hmem⟩ | hsub
  · have hfilter : [a, b].Sublist (l.filter fun x => key x = key a) := by
      simpa [heq] using hab.filter fun x => key x = key a
    rw [List.flatMap_def]
    exact hfilter.trans (List.sublist_flatten_of_mem (List.mem_map_of_mem hmem))
  · have ha : [a].Sublist (l.filter fun x => key x = key a) := by
      rw [List.singleton_sublist, List.mem_filter]
      exact ⟨hab.subset (by simp), by simp⟩
    have hb : [b].Sublist (l.filter fun x => key x = key b) := by
      rw [List.singleton_sublist, List.mem_filter]
      exact ⟨hab.subset (by simp), by simp⟩
    refine List.Sublist.trans ?_ (hsub.flatMap fun k => l.filter fun x => key x = k)
    simpa using ha.append hb

/-- Gathering a list by keys loses nothing and doubles nothing. -/
theorem flatMap_filter_perm {l : List α} {keys : List κ} (hl : l.Nodup) (hkeys : keys.Nodup)
    (hall : ∀ x ∈ l, key x ∈ keys) :
    (keys.flatMap fun k => l.filter fun x => key x = k).Perm l := by
  have hnodup : (keys.flatMap fun k => l.filter fun x => key x = k).Nodup := by
    refine List.nodup_flatMap.mpr ⟨fun k _ => hl.filter _, hkeys.imp ?_⟩
    intro k k' hne x hx hx'
    have hk : key x = k := by simpa using (List.mem_filter.mp hx).2
    have hk' : key x = k' := by simpa using (List.mem_filter.mp hx').2
    exact hne (hk.symm.trans hk')
  refine (List.perm_ext_iff_of_nodup hnodup hl).mpr fun x => ?_
  simp only [List.mem_flatMap, List.mem_filter, decide_eq_true_eq]
  exact ⟨fun ⟨_, _, hx, _⟩ => hx, fun hx => ⟨key x, hall x hx, hx, rfl⟩⟩

end Waves

namespace TaskPlan

open Lib.Transaction PreviewRevision

variable {p : TaskPlan} {r r' : Records}

/-- What rounds of prerequisites find is waited for. -/
theorem waitsFor_of_mem_ancestors {a b : UUID} (rounds : Nat) {seen : List UUID}
    (hseen : ∀ c ∈ seen, TransGen p.WaitsFor a c) (hb : b ∈ ancestors p rounds seen) :
    TransGen p.WaitsFor a b := by
  induction rounds generalizing seen with
  | zero => exact hseen b hb
  | succ rounds ih =>
    refine ih (fun c hc => ?_) hb
    rcases List.mem_append.mp (List.mem_dedup.mp hc) with hc | hc
    · exact hseen c hc
    · obtain ⟨d, hd, hcd⟩ := List.mem_flatMap.mp hc
      exact (hseen d hd).tail hcd

/-- What the check of the roles establishes. -/
theorem validateRoles_ok (h : validateRoles p r = .ok ((), r')) :
    (∀ t ∈ p.tasks, (rank t.preferredRole).isSome) ∧
    (∀ e ∈ p.dependencies, (rankOf p e.dependsOnTaskId).getD 0 ≤ (rankOf p e.taskId).getD 0) ∧
    ∀ t ∈ p.tasks, ∀ id ∈ wave p t, TransGen p.WaitsFor t.id id := by
  unfold validateRoles at h
  obtain ⟨_, s, h₁, hrest⟩ := bind_ok.mp h
  obtain ⟨_, s', h₂, h₃⟩ := bind_ok.mp hrest
  obtain ⟨hroles, -⟩ := failIf_ok.mp h₁
  obtain ⟨hranks, -⟩ := failIf_ok.mp h₂
  obtain ⟨hwaves, -⟩ := failIf_ok.mp h₃
  refine ⟨fun t ht => ?_, fun e he => ?_, fun t ht id hid => ?_⟩
  · by_contra hnone
    refine hroles (.inl (List.any_eq_true.mpr ⟨t, ht, ?_⟩))
    simpa using hnone
  · by_contra hless
    refine hranks (List.any_eq_true.mpr ⟨e, he, ?_⟩)
    simpa using hless
  · have hmem : id ∈ ancestors p p.tasks.length (p.prerequisites t.id) := by
      by_contra hnot
      refine hwaves (List.any_eq_true.mpr ⟨t, ht, List.any_eq_true.mpr ⟨id, hid, ?_⟩⟩)
      simpa using hnot
    exact waitsFor_of_mem_ancestors _ (fun c hc => .single hc) hmem

theorem Valid.rankOf_eq (h : p.Valid) {t : Task} (ht : t ∈ p.tasks) :
    rankOf p t.id = rank t.preferredRole := by
  have hfind : p.task? t.id = some t := h.task?_eq_some.mpr ⟨ht, rfl⟩
  unfold task? at hfind
  rw [rankOf, hfind, Option.bind_some]

/-- Ranked roles are run in the order of their ranks. -/
theorem sublist_waveRoles {a b : AgentRole} (ha : (rank a).isSome) (hb : (rank b).isSome)
    (hab : (rank a).getD 0 ≤ (rank b).getD 0) :
    a = b ∧ a ∈ waveRoles ∨ [a, b].Sublist waveRoles := by
  cases a with
  | developer => cases b <;> first | exact .inl ⟨rfl, by decide⟩ | exact .inr (by decide) | cases hb
  | tester =>
    cases b <;> first
      | exact .inl ⟨rfl, by decide⟩
      | exact .inr (by decide)
      | exact absurd hab (by decide)
  | reviewer =>
    cases b <;> first
      | exact .inl ⟨rfl, by decide⟩
      | exact absurd hab (by decide)
  | _ => cases ha

/-- The roles run one after the other in the static order: nothing is left out, no task comes
before one it waits for, and every tester waits for every developer and every reviewer for every
tester. -/
theorem role_waves {p : TaskPlan} {r r' : Records} (hvalid : p.validateDag = .ok ())
    (hroles : validateRoles p r = .ok ((), r')) (o : StaticOrder p) :
    p.executionOrder o =
        p.roleWave o .developer ++ p.roleWave o .tester ++ p.roleWave o .reviewer ∧
    (p.executionOrder o).Perm p.tasks ∧
    (∀ e ∈ p.dependencies,
      [e.dependsOnTaskId, e.taskId].Sublist ((p.executionOrder o).map Task.id)) ∧
    (∀ t ∈ p.tasks, ∀ d ∈ p.tasks, t.preferredRole = .tester → d.preferredRole = .developer →
      TransGen p.WaitsFor t.id d.id) ∧
    ∀ t ∈ p.tasks, ∀ d ∈ p.tasks, t.preferredRole = .reviewer → d.preferredRole = .tester →
      TransGen p.WaitsFor t.id d.id := by
  have hv := validateDag_eq_ok.mp hvalid
  obtain ⟨hranked, hranks, hwaves⟩ := validateRoles_ok hroles
  have hrepair : p.roleWave o .repair = [] := by
    refine List.filter_eq_nil_iff.mpr fun t ht hrole => ?_
    have hrank := hranked t ((hv.mem_orderedTasks o).mp ht)
    have hrole' : t.preferredRole = .repair := by simpa using hrole
    rw [hrole'] at hrank
    cases hrank
  have hnodup : (p.orderedTasks o).Nodup := by
    apply List.Nodup.of_map Task.id
    rw [hv.map_id_orderedTasks]
    exact o.perm.nodup_iff.mpr hv.nodup
  have htasks : (p.orderedTasks o).Perm p.tasks :=
    (List.perm_ext_iff_of_nodup hnodup (List.Nodup.of_map _ hv.nodup)).mpr
      fun t => hv.mem_orderedTasks o
  have hall : ∀ t ∈ p.orderedTasks o, t.preferredRole ∈ waveRoles := by
    intro t ht
    have hrank := hranked t ((hv.mem_orderedTasks o).mp ht)
    rcases sublist_waveRoles hrank hrank le_rfl with ⟨-, h⟩ | h
    · exact h
    · exact h.subset (by simp)
  refine ⟨?_, ?_, ?_, ?_, ?_⟩
  · simp [executionOrder, waveRoles, hrepair]
  · exact (flatMap_filter_perm hnodup (by decide) hall).trans htasks
  · intro e he
    obtain ⟨t, ht, htid⟩ := List.mem_map.mp (hv.edges e he).1
    obtain ⟨u, hu, huid⟩ := List.mem_map.mp (hv.edges e he).2
    have hwaits : p.WaitsFor t.id u.id := waitsFor_iff.mpr ⟨e, he, htid.symm, huid.symm⟩
    have hrank := hranks e he
    rw [← htid, ← huid, hv.rankOf_eq ht, hv.rankOf_eq hu] at hrank
    have hpair : [u, t].Sublist (p.executionOrder o) :=
      pair_sublist_flatMap (hv.orderedTasks_sorted o ht hu hwaits)
        (sublist_waveRoles (hranked u hu) (hranked t ht) hrank)
    simpa [htid, huid] using hpair.map Task.id
  · intro t ht d hd htester hdeveloper
    refine hwaves t ht d.id ?_
    simp only [wave, htester, withRole]
    exact List.mem_map_of_mem (List.mem_filter.mpr ⟨hd, by simpa using hdeveloper⟩)
  · intro t ht d hd hreviewer htester
    refine hwaves t ht d.id ?_
    simp only [wave, hreviewer, withRole]
    exact List.mem_map_of_mem (List.mem_filter.mpr ⟨hd, by simpa using htester⟩)

/-! ### A plan with a task for each role -/

/-- A task of the sample. -/
def roleTask (n : Nat) (role : AgentRole) : Task :=
  { id := .uuid4 n
    createdAt := 0
    runId := .uuid4 1
    description := "Greet"
    expectedOutcome := "Greets"
    preferredRole := role
    validationMethod := "review" }

/-- The plan of the sample. -/
def rolePlan : TaskPlan :=
  { runId := .uuid4 1
    goalVersionId := .uuid4 2
    version := 1
    tasks := [roleTask 12 .reviewer, roleTask 11 .tester, roleTask 10 .developer]
    dependencies :=
      [{ taskId := .uuid4 12, dependsOnTaskId := .uuid4 11 },
        { taskId := .uuid4 11, dependsOnTaskId := .uuid4 10 }] }

/-- The records of the sample. -/
def roleRecords : Records :=
  { run :=
      { id := .uuid4 1
        createdAt := 0
        projectId := .uuid4 3
        request := "Greet"
        targetBranch := "main"
        baseCommit := "base" } }

theorem rolePlan_valid : rolePlan.validateDag = .ok () := by
  refine validateDag_eq_ok.mpr ?_
  constructor <;> decide

theorem rolePlan_schedulable : rolePlan.Schedulable := by
  unfold Schedulable
  decide

/-- The only static order of the sample. -/
def roleOrder : StaticOrder rolePlan where
  order := [.uuid4 10, .uuid4 11, .uuid4 12]
  perm := by decide
  sorted := by
    intro a b hab
    obtain ⟨e, he, rfl, rfl⟩ := waitsFor_iff.mp hab
    clear hab
    revert e
    decide

theorem sample_progress : readyTasks rolePlan ≠ [] :=
  (scheduler_progress rolePlan_valid rolePlan_schedulable).1
    ⟨roleTask 10 .developer, by decide, by decide⟩

theorem sample_waves : (rolePlan.executionOrder roleOrder).Perm rolePlan.tasks :=
  (role_waves rolePlan_valid (rfl : validateRoles rolePlan roleRecords = .ok ((), roleRecords))
    roleOrder).2.1

end TaskPlan

end Orqalis
