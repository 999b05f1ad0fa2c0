import Orqalis.Persistence.Holding

/-!
# The history of a capsule

The aggregates committed to a capsule form a chain: each was staged on the one before it. The
writes of a section keep the directory in step with the chain, and a section that commits
extends it by one entry.
-/

namespace Orqalis

open Lib Lib.Crash Relation

/-! ## Histories -/

/-- An aggregate a session came to by repository calls on another. -/
structure Derived (safe : String → Bool) (base a : Aggregate) : Prop where
  calls : ReflTransGen (Staging safe) base.records a.records
  capsuleId : a.capsuleId = base.capsuleId
  generation : a.generation = base.generation
  persisted : a.persistedEventCount = base.persistedEventCount
  isNew : a.isNew = base.isNew

section Histories

variable {safe : String → Bool} {base a x y : Aggregate} {id : String} {history : List Aggregate}

theorem Derived.refl (a : Aggregate) : Derived safe a a := ⟨.refl, rfl, rfl, rfl, rfl⟩

theorem Derived.staged (h : Derived safe base a) (hdirty : a.dirty = true) :
    Staged safe base a :=
  ⟨h.calls, h.capsuleId, h.generation, h.persisted, h.isNew, hdirty⟩

theorem Derived.stage {records : Records} (h : Derived safe base a)
    (hcall : Staging safe a.records records) :
    Derived safe base { a with records, dirty := true } :=
  ⟨h.calls.tail hcall, h.capsuleId, h.generation, h.persisted, h.isNew⟩

/-- What a commit is staged on: the last aggregate committed, or a new one. -/
def Base (id : String) (history : List Aggregate) (base : Aggregate) : Prop :=
  match history.getLast? with
  | none => ∃ run : Run, run.lastEventSequence = 0 ∧ base = newAggregate id run
  | some y => base.Same y

/-- An aggregate that may be committed after a history. -/
def Follows (safe : String → Bool) (id : String) (history : List Aggregate) (x : Aggregate) :
    Prop :=
  ∃ base a, Base id history base ∧ Staged safe base a ∧ x = a.committed

/-- A history each entry of which was staged on the one before it. -/
inductive Chain (safe : String → Bool) (id : String) : List Aggregate → Prop
  | nil : Chain safe id []
  | snoc {history : List Aggregate} {x : Aggregate} (h : Chain safe id history)
      (hx : Follows safe id history x) : Chain safe id (history ++ [x])

/-- What follows a history has the next generation, if the last entry has its place. -/
theorem Follows.next (h : Follows safe id history x)
    (hlast : ∀ y, history.getLast? = some y →
      y.generation = history.length ∧ y.capsuleId = id ∧ y.isNew = false ∧ y.dirty = false) :
    x.generation = history.length + 1 ∧ x.capsuleId = id ∧ x.isNew = false ∧
      x.dirty = false := by
  obtain ⟨base, a, hbase, hstaged, rfl⟩ := h
  unfold Base at hbase
  have hgeneration : a.committed.generation = base.generation + 1 :=
    congrArg (· + 1) hstaged.generation
  cases hget : history.getLast? with
  | none =>
    rw [hget] at hbase
    obtain ⟨run, -, rfl⟩ := hbase
    rw [List.getLast?_eq_none_iff] at hget
    subst hget
    exact ⟨hgeneration, hstaged.capsuleId, rfl, rfl⟩
  | some y =>
    rw [hget] at hbase
    obtain ⟨hlength, hid, -, -⟩ := hlast y hget
    refine ⟨?_, ?_, rfl, rfl⟩
    · rw [hgeneration, hbase.generation, hlength]
    · exact hstaged.capsuleId.trans (hbase.capsuleId.trans hid)

/-- Every entry of a chain has the generation of its place. -/
theorem Chain.entry (h : Chain safe id history) :
    ∀ i x, history[i]? = some x →
      x.generation = i + 1 ∧ x.capsuleId = id ∧ x.isNew = false ∧ x.dirty = false := by
  induction h with
  | nil => intro i x hx; simp at hx
  | @snoc history x h hx ih =>
    intro i y hy
    have hnext := hx.next fun z hz => by
      rw [List.getLast?_eq_getElem?] at hz
      have hlength : history.length - 1 < history.length := by
        rcases List.getElem?_eq_some_iff.mp hz with ⟨hlt, -⟩
        exact hlt
      obtain ⟨hgeneration, hrest⟩ := ih _ z hz
      exact ⟨by omega, hrest⟩
    by_cases hi : i < history.length
    · rw [List.getElem?_append_left hi] at hy
      exact ih i y hy
    · rw [List.getElem?_append_right (by omega)] at hy
      obtain ⟨hlt, rfl⟩ := List.getElem?_eq_some_iff.mp hy
      have hi : i = history.length := by simp at hlt; omega
      subst hi
      simpa using hnext

theorem Chain.last (h : Chain safe id history) (hx : history.getLast? = some x) :
    x.generation = history.length ∧ x.capsuleId = id ∧ x.isNew = false ∧ x.dirty = false := by
  rw [List.getLast?_eq_getElem?] at hx
  obtain ⟨hlt, -⟩ := List.getElem?_eq_some_iff.mp hx
  obtain ⟨hgeneration, hrest⟩ := h.entry _ x hx
  exact ⟨by omega, hrest⟩

/-- A held aggregate that was derived from an entry of a history. -/
def Current (safe : String → Bool) (history : List Aggregate) (a : Aggregate) : Prop :=
  a.isNew = false ∧ ∃ (base y : Aggregate) (i : Nat),
    history[i]? = some y ∧ base.Same y ∧ Derived safe base a

theorem Current.append (h : Current safe history a) (l : List Aggregate) :
    Current safe (history ++ l) a := by
  obtain ⟨hnew, base, y, i, hy, hrest⟩ := h
  obtain ⟨hlt, -⟩ := List.getElem?_eq_some_iff.mp hy
  exact ⟨hnew, base, y, i, by rw [List.getElem?_append_left hlt]; exact hy, hrest⟩

theorem Current.stage {records : Records} (h : Current safe history a)
    (hcall : Staging safe a.records records) :
    Current safe history { a with records, dirty := true } := by
  obtain ⟨hnew, base, y, i, hy, hsame, hderived⟩ := h
  exact ⟨hnew, base, y, i, hy, hsame, hderived.stage hcall⟩

/-- A held aggregate of the last generation was derived from the last entry. -/
theorem Current.last (h : Current safe history a) (hchain : Chain safe id history)
    (hy : history.getLast? = some y) (hgeneration : y.generation = a.generation) :
    ∃ base, base.Same y ∧ Derived safe base a := by
  obtain ⟨-, base, z, i, hz, hsame, hderived⟩ := h
  obtain ⟨hlast, -⟩ := hchain.last hy
  obtain ⟨hplace, -⟩ := hchain.entry i z hz
  have hi : i = history.length - 1 := by
    have := hderived.generation
    have := hsame.generation
    omega
  rw [List.getLast?_eq_getElem?, ← hi, hz] at hy
  cases hy
  exact ⟨base, hsame, hderived⟩

theorem Current.capsuleId (h : Current safe history a) (hchain : Chain safe id history) :
    a.capsuleId = id := by
  obtain ⟨-, base, z, i, hz, hsame, hderived⟩ := h
  exact hderived.capsuleId.trans (hsame.capsuleId.trans (hchain.entry i z hz).2.1)

/-- The last entry of a chain is current. -/
theorem Chain.current_last (h : Chain safe id history) (hx : history.getLast? = some x)
    (hsame : y.Same x) : Current safe history y := by
  obtain ⟨-, -, hnew, -⟩ := h.last hx
  rw [List.getLast?_eq_getElem?] at hx
  exact ⟨hsame.isNew.trans hnew, y, x, _, hx, hsame, .refl y⟩

end Histories

/-! ## Pending writes -/

section Pending

variable (safe : String → Bool) (secretSafe : StateDocument → Bool) (id : String)

/-- Writes each of which leaves the directory with the aggregates committed so far, and each
of whose markers follows them. -/
def Pending : List Aggregate → List Write → Prop
  | _, [] => True
  | history, w :: rest =>
    (∀ x, w.committed = some x → Follows safe id history x) ∧
      OnDisk safe secretSafe w.disk (history ++ w.committed.toList) ∧
      Pending (history ++ w.committed.toList) rest

/-- The history at the end of some writes. -/
def after (history : List Aggregate) (writes : List Write) : List Aggregate :=
  history ++ writes.filterMap Write.committed

variable {safe secretSafe id} {history : List Aggregate} {x : Aggregate}

theorem onDisk_of_holds {c : Capsule} (hx : history.getLast? = some x)
    (h : Holds safe secretSafe c x) : OnDisk safe secretSafe c history := by
  unfold OnDisk
  rw [hx]
  exact h

theorem OnDisk.holds {c : Capsule} (h : OnDisk safe secretSafe c history)
    (hx : history.getLast? = some x) : Holds safe secretSafe c x := by
  unfold OnDisk at h
  rwa [hx] at h

theorem pending_append {l m : List Write} :
    Pending safe secretSafe id history (l ++ m) ↔
      Pending safe secretSafe id history l ∧ Pending safe secretSafe id (after history l) m := by
  induction l generalizing history with
  | nil => simp [Pending, after]
  | cons w rest ih =>
    simp only [List.cons_append, Pending, ih, and_assoc]
    have hafter : after (history ++ w.committed.toList) rest = after history (w :: rest) := by
      unfold after
      cases hw : w.committed <;> simp [hw]
    rw [hafter]

/-- Pending writes carry a chain on. -/
theorem Pending.chain {l : List Write} (h : Pending safe secretSafe id history l)
    (hchain : Chain safe id history) : Chain safe id (after history l) := by
  induction l generalizing history with
  | nil => simpa [after] using hchain
  | cons w rest ih =>
    obtain ⟨hfollows, -, hrest⟩ := h
    cases hw : w.committed with
    | none =>
      have hend := ih (by simpa [hw] using hrest) hchain
      simpa [after, hw] using hend
    | some x =>
      have hend := ih (by simpa [hw] using hrest) (.snoc hchain (hfollows x hw))
      simpa [after, hw] using hend

/-- Writes that commit nothing. -/
theorem pending_plain {l : List Capsule}
    (h : ∀ c ∈ l, OnDisk safe secretSafe c history) :
    Pending safe secretSafe id history (l.map fun c => { disk := c }) ∧
      after history (l.map fun c => ({ disk := c } : Write)) = history := by
  induction l with
  | nil => simp [Pending, after]
  | cons c rest ih =>
    obtain ⟨hpending, -⟩ := ih fun d hd => h d (List.mem_cons_of_mem c hd)
    refine ⟨?_, by simp [after]⟩
    simp only [List.map_cons, Pending, Option.toList_none, List.append_nil]
    exact ⟨by simp, h c List.mem_cons_self, hpending⟩

/-- The writes of a run that keeps what the directory holds. -/
theorem pending_writesOf {α : Type} {ran : Ran Capsule Error α}
    (hstops : ∀ c ∈ ran.stops, OnDisk safe secretSafe c history)
    (hdisk : OnDisk safe secretSafe ran.disk history) :
    Pending safe secretSafe id history (writesOf ran) ∧ after history (writesOf ran) = history ∧
      ∀ w ∈ writesOf ran, w.committed = none := by
  have hwrites : writesOf ran = (ran.stops ++ [ran.disk]).map fun c => { disk := c } := by
    simp [writesOf]
  rw [hwrites]
  obtain ⟨hpending, hafter⟩ := @pending_plain safe secretSafe id history
    (ran.stops ++ [ran.disk]) (by
      intro c hc
      rcases List.mem_append.mp hc with hc | hc
      · exact hstops c hc
      · rw [List.mem_singleton.mp hc]
        exact hdisk)
  refine ⟨hpending, hafter, ?_⟩
  intro w hw
  obtain ⟨c, -, rfl⟩ := List.mem_map.mp hw
  rfl

/-! ## The writes of a section -/

section Sections

variable {c : Capsule} {a : Aggregate} {runId : UUID}

/-- A load writes nothing new and answers the last aggregate committed. -/
theorem load_section (hchain : Chain safe id history) (hx : history.getLast? = some x)
    (hdisk : OnDisk safe secretSafe c history) :
    (Pending safe secretSafe id history (writesOf ((loadCapsule id runId).run c)) ∧
      after history (writesOf ((loadCapsule id runId).run c)) = history ∧
      ∀ w ∈ writesOf ((loadCapsule id runId).run c), w.committed = none) ∧
    ∀ b, ((loadCapsule id runId).run c).value = .ok b →
      Current safe history b ∧ b.capsuleId = id := by
  obtain ⟨-, hid, -, -⟩ := hchain.last hx
  have hload := @Holds.load _ _ _ _ runId (hdisk.holds hx)
  rw [hid] at hload
  obtain ⟨hstops, hend, hvalue⟩ := hload
  refine ⟨pending_writesOf (fun d hd => onDisk_of_holds hx (hstops d hd))
    (onDisk_of_holds hx hend), fun b hb => ?_⟩
  rw [hb] at hvalue
  exact ⟨hchain.current_last hx hvalue.1, hvalue.1.capsuleId.trans hid⟩

/-- A comparison writes nothing new. -/
theorem check_section (hx : history.getLast? = some x)
    (hdisk : OnDisk safe secretSafe c history) :
    Pending safe secretSafe id history (writesOf ((checkCached a).run c)) ∧
      after history (writesOf ((checkCached a).run c)) = history ∧
      ∀ w ∈ writesOf ((checkCached a).run c), w.committed = none := by
  obtain ⟨hstops, -, hend⟩ := (hdisk.holds hx).checkCached (a := a)
  exact pending_writesOf (fun d hd => onDisk_of_holds hx (hstops d hd)) (onDisk_of_holds hx hend)

/-- What the check of a commit leaves: when it passes, the directory is settled with what the
held aggregate was derived from. -/
def Checked (safe : String → Bool) (secretSafe : StateDocument → Bool) (id : String)
    (history : List Aggregate) (a : Aggregate) (c : Capsule) : Prop :=
  Meets a.checkGeneration c (OnDisk safe secretSafe · history) (fun v t =>
    OnDisk safe secretSafe t history ∧
      (v = .ok () → ∃ base, Base id history base ∧ Derived safe base a ∧ Settled t base))

theorem checked_current (hchain : Chain safe id history) (hx : history.getLast? = some x)
    (hdisk : OnDisk safe secretSafe c history) (ha : Current safe history a) :
    Checked safe secretSafe id history a c := by
  have hholds := hdisk.holds hx
  refine (hholds.checkGeneration ha.1).mono (fun d hd => onDisk_of_holds hx hd) ?_
  rintro v t ⟨rfl, y, hloaded, hsame⟩
  refine ⟨onDisk_of_holds hx (hloaded.holds hsame), fun hvalue => ?_⟩
  have hgeneration : x.generation = a.generation := by
    by_contra hne
    rw [if_neg hne] at hvalue
    cases hvalue
  obtain ⟨base, hbase, hderived⟩ := ha.last hchain hx hgeneration
  refine ⟨base, ?_, hderived, hloaded.settled.of_same (hbase.trans hsame.symm)⟩
  unfold Base
  rw [hx]
  exact hbase

theorem checked_new {run : Run} (hcursor : run.lastEventSequence = 0)
    (ha : Derived safe (newAggregate id run) a) :
    Checked safe secretSafe id [] a .empty := by
  have hrun : a.checkGeneration.run .empty = ⟨[], .ok (), .empty⟩ := by
    have hnew : a.isNew = true := ha.isNew
    unfold Aggregate.checkGeneration
    rw [if_pos hnew]
    rfl
  unfold Checked Meets
  rw [hrun]
  exact ⟨by simp, rfl, fun _ => ⟨_, ⟨run, hcursor, rfl⟩, ha, settled_newAggregate hcursor⟩⟩

/-- A commit makes at most one marker durable, that of what was staged on the last entry, and
it answers it. -/
theorem commit_section (hchecked : Checked safe secretSafe id history a c)
    (hdirty : a.dirty = true) :
    Pending safe secretSafe id history (commitWrites secretSafe a c) ∧
      (((commitCapsule secretSafe a).run c).value = .ok a.committed ∧
          after history (commitWrites secretSafe a c) = history ++ [a.committed] ∨
        (∃ e, ((commitCapsule secretSafe a).run c).value = .error e) ∧
          ∀ w ∈ commitWrites secretSafe a c, w.committed = none) := by
  obtain ⟨hstops, hend, hpassed⟩ := hchecked
  unfold commitWrites commitCapsule
  rw [if_neg (by simp [hdirty]), Prog.run_bind]
  cases hcheck : a.checkGeneration.run c with
  | mk stops value disk =>
    rw [hcheck] at hstops hend hpassed
    obtain ⟨hplain, hsame, hnone⟩ := @pending_writesOf safe secretSafe id history _
      ⟨stops, value, disk⟩ hstops hend
    cases value with
    | error e => exact ⟨hplain, .inr ⟨⟨e, rfl⟩, hnone⟩⟩
    | ok _ =>
      cases hdocuments : a.documents secretSafe (a.generation + 1) with
      | error e =>
        refine ⟨hplain, .inr ⟨⟨e, ?_⟩, hnone⟩⟩
        simp [Prog.andThen, Prog.run_bind, Prog.lift, Prog.fail]
      | ok documents =>
        obtain ⟨base, hbase, hderived, hsettled⟩ := hpassed rfl
        have hstaged := hderived.staged hdirty
        obtain ⟨hmarked, hrecover⟩ := hsettled.marked hstaged hdocuments
        have hlast : (history ++ [a.committed]).getLast? = some a.committed := by simp
        have hdisk : ∀ d, Holds safe secretSafe d a.committed →
            OnDisk safe secretSafe d (history ++ [a.committed]) :=
          fun d hd => onDisk_of_holds hlast hd
        obtain ⟨hrest, hafter, -⟩ := @pending_writesOf safe secretSafe id _ _
          (recover.run (marked a documents disk))
          (fun d hd => hdisk d (hrecover.1 d hd)) (hdisk _ hrecover.2.2)
        obtain ⟨hbefore, hbeforeEnd⟩ := @pending_plain _ _ id _ _ hstops
        refine ⟨?_, .inl ⟨?_, ?_⟩⟩
        · rw [pending_append, hbeforeEnd]
          refine ⟨hbefore, ?_, hdisk _ hmarked, hrest⟩
          intro x hx
          cases hx
          exact ⟨base, a, hbase, hstaged, rfl⟩
        · have hvalue := hrecover.2.1
          simp only [Prog.andThen, Prog.run_bind, Prog.lift, Prog.run_pure, Prog.write,
            Prog.step, List.nil_append]
          cases hran : recover.run (marked a documents disk) with
          | mk stops' value' disk' =>
            have hran' : recover.run (Capsule.putMarker
                (.transaction (a.transaction (a.generation + 1) documents)) disk) =
                ⟨stops', value', disk'⟩ := hran
            rw [hran] at hvalue
            simp only at hvalue
            subst hvalue
            rw [hran']
        · unfold after at hafter hbeforeEnd ⊢
          have hempty : (stops.map fun d => ({ disk := d } : Write)).filterMap Write.committed =
              [] := by simp
          have hempty' : (writesOf (recover.run (marked a documents disk))).filterMap
              Write.committed = [] := by simpa using hafter
          simp only [List.filterMap_append, List.filterMap_cons, hempty, hempty',
            List.nil_append]

end Sections

end Pending

end Orqalis
