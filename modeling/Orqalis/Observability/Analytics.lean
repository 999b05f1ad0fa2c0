import Orqalis.Core.Scheduler
import Orqalis.Core.Timing
import Orqalis.Lib.LongestChain
import Orqalis.Lib.Sweep

/-!
# Statistics of a run

The segments of a timeline and what is computed from them and from the plan: how many tasks ran
at once, at most, and the chain of dependent tasks that worked longest.

Both are what they are called. The largest number of tasks at once is the peak of a sweep over
the ends of the segments, the chain is the heaviest along a static order of the plan
(`statistics_exact`). What is counted of provider calls, tools and reviews is left out.
-/

namespace Orqalis

open Lib

/-! ## Segments -/

inductive SegmentKind
  | actor
  | task
  | phase
deriving DecidableEq, Repr

/-- The text of a kind of segment. -/
def SegmentKind.value : SegmentKind → String
  | actor => "actor"
  | task => "task"
  | phase => "phase"

/-- How long something had a status. -/
structure TimelineSegment where
  kind : SegmentKind
  entityId : UUID
  taskId : Option UUID
  status : String
  startedAt : Time
  endedAt : Time
  durationMs : Nat
  ordered : startedAt ≤ endedAt
  measured : durationMs = (endedAt - startedAt) / 1000
deriving DecidableEq

/-- What an event is listed under. -/
def Event.groups (e : Event) : List (SegmentKind × UUID) :=
  (if e.eventType ∈ actorEvents then e.actorSessionId.toList.map fun id => (.actor, id) else []) ++
    (if e.eventType ∈ taskEvents then e.taskExecutionId.toList.map fun id => (.task, id) else []) ++
      if e.eventType ∈ [.phaseStarted, .phaseCompleted, .phaseStatusChanged] then
        e.payload.phaseExecutionId.toList.map fun id => (.phase, id)
      else []

/-- The segment an event opens. -/
def Event.segment (key : SegmentKind × UUID) (e : Event) (finish : Time) : TimelineSegment where
  kind := key.1
  entityId := key.2
  taskId := e.taskId
  status := (e.payload.status.filter fun s => s ≠ "").getD "UNKNOWN"
  startedAt := e.occurredAt
  endedAt := max finish e.occurredAt
  durationMs := (max finish e.occurredAt - e.occurredAt) / 1000
  ordered := Nat.le_max_right ..
  measured := rfl

/-- The segments of a history. -/
def segmentsOf (key : SegmentKind × UUID) : List Event → Time → List TimelineSegment
  | [], _ => []
  | e :: rest, now =>
    if e.payload.status.any (· ∈ terminalStatuses) then []
    else e.segment key ((rest.head?.map Event.occurredAt).getD now) :: segmentsOf key rest now

/-- The order of a timeline. -/
def TimelineSegment.Before (x y : TimelineSegment) : Prop :=
  x.startedAt < y.startedAt ∨ x.startedAt = y.startedAt ∧
    (x.kind.value < y.kind.value ∨ x.kind = y.kind ∧ x.entityId.text ≤ y.entityId.text)

instance : DecidableRel TimelineSegment.Before := fun x y => by
  unfold TimelineSegment.Before
  infer_instance

/-- The segments of a log. -/
def timeline (events : List Event) (now : Time) : List TimelineSegment :=
  ((events.flatMap Event.groups).eraseDups.flatMap fun key =>
    segmentsOf key (events.filter fun e => e.groups.contains key) now).insertionSort
      TimelineSegment.Before

/-! ## Statistics -/

/-- The statistics of a run. -/
structure RuntimeStatistics where
  maxParallelTasks : Int
  meanParallelTasks : Rat
  criticalPathTaskIds : List UUID
  criticalPathWorkingMs : Nat

/-- Whether a segment shows a task at work. -/
def TimelineSegment.working (s : TimelineSegment) : Bool :=
  s.kind = .task ∧ s.status = "RUNNING" ∧ s.durationMs ≠ 0

/-- A plan with the order a topological sorter answers for it. -/
structure OrderedPlan where
  plan : ValidPlan
  order : TaskPlan.StaticOrder plan.1

/-- The tasks a task waits for, each once and in order. -/
def TaskPlan.parents (p : TaskPlan) (id : UUID) : List UUID :=
  (p.prerequisites id).dedup.insertionSort fun a b => a.text ≤ b.text

/-- How long a task worked. -/
def workingMs (taskTiming : UUID → Option TimingBreakdown) (id : UUID) : Nat :=
  ((taskTiming id).getD {}).activeMs

/-- The chain of tasks that worked longest, and how long. -/
def criticalPath (p : OrderedPlan) (taskTiming : UUID → Option TimingBreakdown) :
    Nat × List UUID :=
  LongestChain.heaviest
    (LongestChain.chains p.plan.1.parents (workingMs taskTiming) p.order.order)

/-- The statistics of segments, a plan and times. -/
def statistics (segments : List TimelineSegment) (plan : Option OrderedPlan)
    (taskTiming : UUID → Option TimingBreakdown) (runTiming : TimingBreakdown) :
    RuntimeStatistics where
  maxParallelTasks :=
    Sweep.peak ((segments.filter TimelineSegment.working).map fun s => (s.startedAt, s.endedAt))
  meanParallelTasks :=
    if runTiming.wallMs = 0 then 0
    else (((segments.filter TimelineSegment.working).map TimelineSegment.durationMs).sum : Rat) /
      runTiming.wallMs
  criticalPathTaskIds := (plan.map fun p => (criticalPath p taskTiming).2).getD []
  criticalPathWorkingMs := (plan.map fun p => (criticalPath p taskTiming).1).getD 0

/-! ## What they are -/

/-- Tasks of a plan each of which waits for the one before. -/
structure TaskPlan.DependencyChain (p : TaskPlan) (ids : List UUID) : Prop where
  known : ids ⊆ p.ids
  linked : ids.IsChain fun a b => p.WaitsFor b a

/-- How long tasks worked together. -/
def workedMs (taskTiming : UUID → Option TimingBreakdown) (ids : List UUID) : Nat :=
  (ids.map (workingMs taskTiming)).sum

/-- How many tasks are at work at an instant. -/
def workingAt (segments : List TimelineSegment) (t : Time) : Nat :=
  segments.countP fun s => s.working ∧ s.startedAt ≤ t ∧ t < s.endedAt

theorem TimelineSegment.lt_of_working {s : TimelineSegment} (h : s.working) :
    s.startedAt < s.endedAt := by
  have hne : s.durationMs ≠ 0 := by
    simp only [working, Bool.decide_and, Bool.and_eq_true, decide_eq_true_eq] at h
    exact h.2.2
  rw [s.measured] at hne
  by_contra hle
  rw [Nat.sub_eq_zero_of_le (not_lt.mp hle)] at hne
  exact hne rfl

/-- The segments that hold an instant are those the sweep counts. -/
theorem holding_working (segments : List TimelineSegment) (t : Time) :
    Sweep.holding ((segments.filter TimelineSegment.working).map fun s =>
      (s.startedAt, s.endedAt)) t = workingAt segments t := by
  unfold Sweep.holding workingAt
  rw [List.countP_map, List.countP_filter]
  apply List.countP_congr
  intro s _
  simp [and_comm]

/-- The sweep finds the largest number of tasks at work at once. -/
theorem isGreatest_working (segments : List TimelineSegment) :
    IsGreatest (Set.range fun t => (workingAt segments t : Int))
      (Sweep.peak ((segments.filter TimelineSegment.working).map fun s =>
        (s.startedAt, s.endedAt))) := by
  have hproper : ∀ i ∈ (segments.filter TimelineSegment.working).map fun s =>
      (s.startedAt, s.endedAt), i.1 < i.2 := by
    intro i hi
    obtain ⟨s, hs, rfl⟩ := List.mem_map.mp hi
    exact TimelineSegment.lt_of_working (List.mem_filter.mp hs).2
  simpa only [holding_working] using Sweep.isGreatest_peak hproper

theorem TaskPlan.mem_parents {p : TaskPlan} {a b : UUID} : b ∈ p.parents a ↔ p.WaitsFor a b := by
  unfold parents
  rw [List.mem_insertionSort, List.mem_dedup]
  rfl

/-- In a static order the tasks a task waits for come first. -/
theorem TaskPlan.StaticOrder.parents_first {p : TaskPlan} (o : p.StaticOrder) (h : p.Valid)
    (pre : List UUID) (a : UUID) (post : List UUID) (heq : o.order = pre ++ a :: post) :
    ∀ b ∈ p.parents a, b ∈ pre := by
  intro b hb
  have hnodup : (pre ++ a :: post).Nodup := heq ▸ o.perm.nodup_iff.mpr h.nodup
  have hpost : a ∉ post := (List.nodup_cons.mp (List.nodup_append.mp hnodup).2.1).1
  have hsub : [b, a].Sublist (pre ++ a :: post) := heq ▸ o.sorted a b (mem_parents.mp hb)
  obtain ⟨front, back, hsplit, hfront, hback⟩ := List.sublist_append_iff.mp hsub
  cases front with
  | nil =>
    -- the place after b would be behind the only one there is
    obtain rfl : [b, a] = back := hsplit
    rcases hback with _ | ⟨_, hback⟩ | ⟨_, hback⟩
    · exact absurd (hback.subset (by simp)) hpost
    · exact absurd (hback.subset (by simp)) hpost
  | cons c front =>
    obtain ⟨rfl, -⟩ := List.cons.inj hsplit
    exact hfront.subset List.mem_cons_self

/-- The critical path is the dependency chain that worked longest. -/
theorem criticalPath_heaviest (p : OrderedPlan) (taskTiming : UUID → Option TimingBreakdown) :
    LongestChain.Heaviest p.plan.1.parents (workingMs taskTiming) p.order.order p.order.order
      (criticalPath p taskTiming) ∧ (criticalPath p taskTiming).2 ≠ [] := by
  have hbest : LongestChain.Best p.plan.1.parents (workingMs taskTiming) p.order.order
      (LongestChain.chains p.plan.1.parents (workingMs taskTiming) p.order.order) :=
    LongestChain.chains_best p.order.order (p.order.parents_first p.plan.valid)
  refine ⟨hbest.heaviest, hbest.heaviest_ne_nil fun hnil => ?_⟩
  have hids : p.plan.1.ids = [] := List.nil_perm.mp (hnil ▸ p.order.perm)
  exact p.plan.valid.nonempty (List.map_eq_nil_iff.mp hids)

/-- The chains of a plan are those along its static order. -/
theorem OrderedPlan.dependencyChain_iff (p : OrderedPlan) {ids : List UUID} :
    p.plan.1.DependencyChain ids ↔
      LongestChain.Chained p.plan.1.parents ids ∧ ids ⊆ p.order.order := by
  have hlinked : (ids.IsChain fun a b => p.plan.1.WaitsFor b a) ↔
      LongestChain.Chained p.plan.1.parents ids := by
    unfold LongestChain.Chained
    simp only [TaskPlan.mem_parents]
  have hknown : ids ⊆ p.plan.1.ids ↔ ids ⊆ p.order.order :=
    ⟨fun h a ha => p.order.perm.mem_iff.mpr (h ha), fun h a ha => p.order.perm.mem_iff.mp (h ha)⟩
  exact ⟨fun h => ⟨hlinked.mp h.linked, hknown.mp h.known⟩,
    fun h => ⟨hknown.mpr h.2, hlinked.mpr h.1⟩⟩

/-- What the statistics of a run say. -/
structure StatisticsExact (segments : List TimelineSegment) (plan : Option OrderedPlan)
    (taskTiming : UUID → Option TimingBreakdown) (s : RuntimeStatistics) : Prop where
  parallel : IsGreatest (Set.range fun t => (workingAt segments t : Int)) s.maxParallelTasks
  chain : ∀ p, plan = some p → p.plan.1.DependencyChain s.criticalPathTaskIds ∧
    s.criticalPathTaskIds ≠ [] ∧
    workedMs taskTiming s.criticalPathTaskIds = s.criticalPathWorkingMs
  longest : ∀ p, plan = some p → ∀ ids, p.plan.1.DependencyChain ids →
    workedMs taskTiming ids ≤ s.criticalPathWorkingMs

/-- The statistics are the largest number of tasks at once and the longest chain of work. -/
theorem statistics_exact (segments : List TimelineSegment) (plan : Option OrderedPlan)
    (taskTiming : UUID → Option TimingBreakdown) (runTiming : TimingBreakdown) :
    StatisticsExact segments plan taskTiming
      (statistics segments plan taskTiming runTiming) where
  parallel := isGreatest_working segments
  chain := by
    rintro p rfl
    obtain ⟨h, hne⟩ := criticalPath_heaviest p taskTiming
    exact ⟨p.dependencyChain_iff.mpr ⟨h.chained, h.within⟩, hne, h.total⟩
  longest := by
    rintro p rfl ids hids
    obtain ⟨h, -⟩ := criticalPath_heaviest p taskTiming
    obtain ⟨hchained, hwithin⟩ := p.dependencyChain_iff.mp hids
    exact h.longest ids hchained fun a ha => hwithin (List.mem_of_getLast? ha)

end Orqalis
