import Orqalis.Lib.System
import Orqalis.Persistence.Interleaving

/-!
# No update is lost

Whatever the order of the sessions' steps, the aggregates committed to a capsule have the
generations one, two, three, each was staged on the one before it, and a load answers the
last. A commit on any other generation is refused before it writes. The project's state is
kept the same way, by one check and one write under one lock.
-/

namespace Orqalis

open Lib Lib.Crash Lib.System Relation

/-! ## The project's state -/

/-- Extensions that come from others by writes of namespaces. -/
def Updated (base extensions : ProjectExtensions) : Prop :=
  ReflTransGen (fun x y => ∃ name value, y = ProjectExtensions.put x name value) base extensions

/-- The extensions of a generation of the project; before the first there are none. -/
def entry (history : List ProjectExtensions) : Nat → ProjectExtensions
  | 0 => []
  | k + 1 => history.getD k []

theorem entry_append {history : List ProjectExtensions} {k : Nat} (h : k ≤ history.length)
    (extensions : ProjectExtensions) :
    entry (history ++ [extensions]) k = entry history k := by
  cases k with
  | zero => rfl
  | succ k =>
    have hlt : k < history.length := h
    simp [entry, List.getD_eq_getElem?_getD, List.getElem?_append_left hlt]

variable {ι θ : Type}

/-- The invariant of the project's state. -/
structure World.ProjectInv (W : World ι θ) : Prop where
  disk : W.projectHistory = [] ∧ W.store.state = .absent ∨
    W.projectHistory ≠ [] ∧ W.store.state = .document (.value taskSchemaVersion)
      (.value W.projectHistory.length)
      (.value (entry W.projectHistory W.projectHistory.length))
  chain : ∀ k < W.projectHistory.length,
    Updated (entry W.projectHistory k) (entry W.projectHistory (k + 1))
  held : ∀ i extensions, (W.members i).session.projectExtensions = some extensions →
    ∃ k : Nat, (W.members i).session.projectGeneration = k ∧ k ≤ W.projectHistory.length ∧
      Updated (entry W.projectHistory k) extensions
  lock : ∀ i, W.projectLock = some i →
    (W.members i).session.projectGeneration = W.projectHistory.length

variable {thread : ι → θ} {safe : String → Bool} {secretSafe : StateDocument → Bool}
  {W W' : World ι θ}

theorem World.projectInv_initial : (World.initial ι θ).ProjectInv where
  disk := .inl ⟨rfl, rfl⟩
  chain := by simp [World.initial]
  held := by simp [World.initial]
  lock := by simp [World.initial]

/-- What leaves the project alone keeps its invariant. -/
theorem World.ProjectInv.congr (h : W.ProjectInv) (hstate : W'.store.state = W.store.state)
    (hhistory : W'.projectHistory = W.projectHistory)
    (hheld : ∀ i, (W'.members i).session.projectExtensions = none ∨
      (W'.members i).session.projectExtensions = (W.members i).session.projectExtensions ∧
        (W'.members i).session.projectGeneration = (W.members i).session.projectGeneration)
    (hlock : ∀ i, W'.projectLock = some i → W.projectLock = some i ∧
      (W'.members i).session.projectGeneration = (W.members i).session.projectGeneration) :
    W'.ProjectInv where
  disk := by rw [hstate, hhistory]; exact h.disk
  chain := by rw [hhistory]; exact h.chain
  held := by
    intro i extensions hextensions
    rcases hheld i with hnone | ⟨hsame, hgeneration⟩
    · rw [hnone] at hextensions
      cases hextensions
    · rw [hsame] at hextensions
      rw [hgeneration, hhistory]
      exact h.held i extensions hextensions
  lock := by
    intro i hi
    obtain ⟨hold, hgeneration⟩ := hlock i hi
    rw [hgeneration, hhistory]
    exact h.lock i hold

/-- The generation a commit of the project's state reads is the number of commits. -/
theorem World.ProjectInv.diskGeneration (h : W.ProjectInv) :
    W.store.state.diskGeneration = .ok (W.projectHistory.length : Int) := by
  rcases h.disk with ⟨hempty, hstate⟩ | ⟨-, hstate⟩
  · rw [hstate, hempty]
    rfl
  · rw [hstate]
    rfl

section Steps

variable [DecidableEq ι] [DecidableEq θ]

/-- Every step keeps the invariant of the project's state. -/
theorem World.ProjectInv.step (h : W.ProjectInv)
    (hstep : World.Step thread safe secretSafe W W') : W'.ProjectInv := by
  cases hstep with
  | load i runId forUpdate hidle hcached hfound hfree =>
    refine h.congr rfl rfl (fun j => .inr ?_) (fun j hj => ⟨hj, ?_⟩) <;>
      by_cases hji : j = i <;> simp [World.enter, World.setSection, World.setMember, hji]
  | check i hidle hcached hold hfree =>
    refine h.congr rfl rfl (fun j => .inr ?_) (fun j hj => ⟨hj, ?_⟩) <;>
      by_cases hji : j = i <;> simp [World.enter, World.setSection, World.setMember, hji]
  | commit i hidle hcached hdirty hfree =>
    refine h.congr rfl rfl (fun j => .inr ?_) (fun j hj => ⟨hj, ?_⟩) <;>
      by_cases hji : j = i <;> simp [World.enter, World.setSection, World.setMember, hji]
  | tick t hsection hpending =>
    exact h.congr rfl rfl (fun j => .inr ⟨rfl, rfl⟩) (fun j hj => ⟨hj, rfl⟩)
  | @leave t s hsection hpending =>
    have hfinish : ∀ m : Member,
        (World.finish m s).session.projectExtensions = m.session.projectExtensions ∧
          (World.finish m s).session.projectGeneration = m.session.projectGeneration := by
      intro m
      unfold World.finish
      split <;> exact ⟨rfl, rfl⟩
    refine h.congr rfl rfl (fun j => .inr ?_) (fun j hj => ⟨hj, ?_⟩) <;>
      by_cases hji : j = s.owner <;>
      simp [World.setSection, World.setMember, hji, hfinish]
  | create i run id hidle hcached hnone hfresh hcursor hfree =>
    refine h.congr rfl rfl (fun j => .inr ?_) (fun j hj => ⟨hj, ?_⟩) <;>
      by_cases hji : j = i <;> simp [World.setMember, hji]
  | stage i hidle hcached hcall =>
    refine h.congr rfl rfl (fun j => .inr ?_) (fun j hj => ⟨hj, ?_⟩) <;>
      by_cases hji : j = i <;> simp [World.setSession, World.setMember, hji]
  | release i id hidle =>
    refine h.congr rfl rfl (fun j => .inr ?_) (fun j hj => ⟨hj, ?_⟩) <;>
      by_cases hji : j = i <;> simp [World.setMember, hji]
  | forget i hidle hcached hclean =>
    refine h.congr rfl rfl (fun j => .inr ?_) (fun j hj => ⟨hj, ?_⟩) <;>
      by_cases hji : j = i <;> simp [World.setSession, World.setMember, hji]
  | @rollback i store hidle hstore =>
    have hstate : store.state = W.store.state := by rw [hstore.1]
    refine h.congr hstate rfl (fun j => ?_) (fun j hj => ⟨hj, ?_⟩)
    · by_cases hji : j = i <;> simp [World.setMember, hji]
    · have hji : j ≠ i := by
        rintro rfl
        exact hidle.2 j hj rfl
      simp [World.setMember, hji]
  | stop t =>
    refine h.congr rfl rfl (fun j => ?_) (fun j hj => ?_)
    · by_cases hji : thread j = t <;> simp [hji]
    · obtain ⟨hlock, hthread⟩ := Option.filter_eq_some_iff.mp hj
      have hthread : thread j ≠ t := by simpa using hthread
      exact ⟨hlock, by simp [hthread]⟩
  | other index project =>
    exact h.congr rfl rfl (fun j => .inr ⟨rfl, rfl⟩) (fun j hj => ⟨hj, rfl⟩)
  | @loadProject i generation extensions hidle hnone hload =>
    have hloaded : generation = W.projectHistory.length ∧
        extensions = entry W.projectHistory W.projectHistory.length := by
      rcases h.disk with ⟨hempty, hstate⟩ | ⟨-, hstate⟩
      · rw [hstate] at hload
        cases hload
        rw [hempty]
        exact ⟨rfl, rfl⟩
      · rw [hstate] at hload
        simp only [ProjectStateFile.load] at hload
        split at hload
        · cases hload
          exact ⟨rfl, rfl⟩
        · cases hload
    obtain ⟨rfl, rfl⟩ := hloaded
    refine ⟨h.disk, h.chain, fun j extensions hj => ?_, fun j hj => ?_⟩
    · by_cases hji : j = i
      · subst hji
        simp only [World.setSession, World.setMember, Function.update_self] at hj ⊢
        cases hj
        exact ⟨_, rfl, le_rfl, .refl⟩
      · simp only [World.setSession, World.setMember, Function.update_of_ne hji] at hj ⊢
        exact h.held j extensions hj
    · have hji : j ≠ i := by
        rintro rfl
        exact hidle.2 j hj rfl
      simp only [World.setSession, World.setMember, Function.update_of_ne hji]
      exact h.lock j hj
  | @saveProject i extensions name value hidle hloaded =>
    refine ⟨h.disk, h.chain, fun j extensions' hj => ?_, fun j hj => ?_⟩
    · by_cases hji : j = i
      · subst hji
        simp only [World.setSession, World.setMember, Function.update_self] at hj ⊢
        cases hj
        obtain ⟨k, hk, hle, hupdated⟩ := h.held j extensions hloaded
        exact ⟨k, hk, hle, hupdated.tail ⟨name, value, rfl⟩⟩
      · simp only [World.setSession, World.setMember, Function.update_of_ne hji] at hj ⊢
        exact h.held j extensions' hj
    · have hji : j ≠ i := by
        rintro rfl
        exact hidle.2 j hj rfl
      simp only [World.setSession, World.setMember, Function.update_of_ne hji]
      exact h.lock j hj
  | checkProject i hidle hfree hdirty hdisk =>
    refine ⟨h.disk, h.chain, h.held, fun j hj => ?_⟩
    cases hj
    rw [h.diskGeneration] at hdisk
    exact (Except.ok.inj hdisk).symm
  | @writeProject i extensions hlock hloaded =>
    have hgeneration := h.lock i hlock
    obtain ⟨k, hk, hle, hupdated⟩ := h.held i extensions hloaded
    have hk : k = W.projectHistory.length := by omega
    subst hk
    have hlast : entry (W.projectHistory ++ [extensions]) (W.projectHistory.length + 1) =
        extensions := by simp [entry]
    refine ⟨.inr ⟨by simp, ?_⟩, ?_, fun j extensions' hj => ?_, by simp⟩
    · show ProjectStateFile.document _ _ _ = _
      rw [hgeneration]
      simp only [List.length_append, List.length_singleton, hlast]
      rfl
    · intro k hk
      have hk : k < W.projectHistory.length + 1 := by simpa using hk
      rw [entry_append (by omega)]
      by_cases hlt : k < W.projectHistory.length
      · rw [entry_append (by omega)]
        exact h.chain k hlt
      · have hk : k = W.projectHistory.length := by omega
        subst hk
        rw [hlast]
        exact hupdated
    · by_cases hji : j = i
      · subst hji
        simp only [World.setSession, World.setMember, Function.update_self] at hj ⊢
        rw [hloaded] at hj
        cases hj
        refine ⟨W.projectHistory.length + 1, ?_, by simp, ?_⟩
        · rw [hgeneration]
          rfl
        · rw [hlast]
          exact .refl
      · simp only [World.setSession, World.setMember, Function.update_of_ne hji] at hj ⊢
        obtain ⟨k, hk, hle, hupdated⟩ := h.held j extensions' hj
        refine ⟨k, hk, by simp; omega, ?_⟩
        rw [entry_append hle]
        exact hupdated

/-- Every run keeps both invariants. -/
theorem World.inv_of_run
    (hrun : ReflTransGen (World.Step thread safe secretSafe) (World.initial ι θ) W) :
    W.Inv thread safe secretSafe ∧ W.ProjectInv := by
  have hinv : Preserved (World.Step thread safe secretSafe)
      (World.Inv thread safe secretSafe) := fun _ _ h hstep => h.step hstep
  exact (hinv.and fun _ _ _ h hstep => h.step hstep).run hrun
    ⟨World.inv_initial, World.projectInv_initial⟩

end Steps

/-! ## Stale sessions -/

/-- A commit of the project's state from another generation than the one on disk is refused
and changes nothing. -/
theorem commitProjectState_stale {u : UnitOfWork} {disk : Int}
    (hdirty : u.session.projectExtensionsDirty = true)
    (hdisk : u.store.state.diskGeneration = .ok disk) (hne : disk ≠ u.session.projectGeneration) :
    commitProjectState.run u =
      ⟨[], .error (.conflict "Project filesystem state changed concurrently; retry"), u⟩ := by
  unfold commitProjectState
  simp [Bind.bindLeft, Prog.run_bind, Prog.read, Prog.andThen, Prog.lift, Prog.fail, hdirty,
    hdisk, hne]

/-- From the generation on disk it is one write, that of the steps `checkProject` and
`writeProject`. -/
theorem commitProjectState_current {u : UnitOfWork} {extensions : ProjectExtensions}
    (hdirty : u.session.projectExtensionsDirty = true)
    (hdisk : u.store.state.diskGeneration = .ok u.session.projectGeneration)
    (hloaded : u.session.projectExtensions = some extensions) :
    (commitProjectState.run u).value = .ok () ∧
      (commitProjectState.run u).disk =
        { store := { u.store with
            state := .document (.value taskSchemaVersion)
              (.value (u.session.projectGeneration + 1)) (.value extensions) }
          session := { u.session with
            projectGeneration := u.session.projectGeneration + 1
            projectExtensionsDirty := false } } := by
  unfold commitProjectState
  simp [Bind.bindLeft, Prog.run_bind, Prog.read, Prog.andThen, Prog.lift, Prog.note, Prog.step,
    onStore, Prog.focus, Prog.write, UnitOfWork.onSession, UnitOfWork.putStore, hdirty, hdisk,
    hloaded, Field.of]

/-! ## The result -/

section Result

variable {safe : String → Bool} {secretSafe : StateDocument → Bool} {id : String}
  {history : List Aggregate} {a x y : Aggregate}

/-- The first entry of a chain was staged on a new aggregate. -/
theorem Chain.first (h : Chain safe id history) (hx : history[0]? = some x) :
    ∃ run a, run.lastEventSequence = 0 ∧ Staged safe (newAggregate id run) a ∧
      x = a.committed := by
  induction h with
  | nil => simp at hx
  | @snoc history y h hy ih =>
    cases history with
    | nil =>
      obtain ⟨base, a, ⟨run, hcursor, rfl⟩, hstaged, rfl⟩ := hy
      cases hx
      exact ⟨run, a, hcursor, hstaged, rfl⟩
    | cons z rest => exact ih hx

/-- Every other entry was staged on the one before it. -/
theorem Chain.consecutive (h : Chain safe id history) {i : Nat} (hx : history[i]? = some x)
    (hy : history[i + 1]? = some y) :
    ∃ base a, base.Same x ∧ Staged safe base a ∧ y = a.committed := by
  induction h with
  | nil => simp at hx
  | @snoc history z h hz ih =>
    by_cases hi : i + 1 < history.length
    · rw [List.getElem?_append_left (by omega)] at hx
      rw [List.getElem?_append_left hi] at hy
      exact ih hx hy
    · obtain ⟨hlt, hlast⟩ := List.getElem?_eq_some_iff.mp hy
      have hi : history.length = i + 1 := by simp at hlt; omega
      have hz' : z = y := by simpa [List.getElem_append, hi] using hlast
      subst hz'
      rw [List.getElem?_append_left (by omega)] at hx
      obtain ⟨base, a, hbase, hstaged, rfl⟩ := hz
      have hget : history.getLast? = some x := by
        rw [List.getLast?_eq_getElem?, hi]
        simpa using hx
      unfold Base at hbase
      rw [hget] at hbase
      exact ⟨base, a, hbase, hstaged, rfl⟩

/-- What a load of a directory answers, when the directory holds it. -/
theorem Holds.loads {c : Capsule} (h : Holds safe secretSafe c x) :
    ∃ y, ((loadCapsule x.capsuleId x.records.run.id).run c).value = .ok y ∧ y.Same x := by
  obtain ⟨-, -, hvalue⟩ := @Holds.load _ _ _ _ x.records.run.id h
  cases hv : ((loadCapsule x.capsuleId x.records.run.id).run c).value with
  | ok y =>
    rw [hv] at hvalue
    exact ⟨y, rfl, hvalue.1⟩
  | error e =>
    rw [hv] at hvalue
    exact absurd rfl hvalue

/-- A commit from another generation than the one the directory holds is refused, and none
of its writes makes the directory hold anything else. -/
theorem Holds.commit_stale {c : Capsule} (h : Holds safe secretSafe c x) (hold : a.isNew = false)
    (hne : x.generation ≠ a.generation) (hdirty : a.dirty = true) :
    ((commitCapsule secretSafe a).run c).value =
        .error (.conflict "Task Capsule changed concurrently; retry") ∧
      ∀ w ∈ commitWrites secretSafe a c,
        w.committed = none ∧ Holds safe secretSafe w.disk x := by
  obtain ⟨hstops, hvalue, y, hloaded, hsame⟩ := h.checkGeneration hold
  rw [if_neg hne] at hvalue
  unfold commitWrites commitCapsule
  rw [if_neg (by simp [hdirty]), Prog.run_bind]
  cases hcheck : a.checkGeneration.run c with
  | mk stops value disk =>
    rw [hcheck] at hstops hvalue hloaded
    simp only at hvalue
    subst hvalue
    refine ⟨rfl, fun w hw => ?_⟩
    rcases List.mem_append.mp hw with hw | hw
    · obtain ⟨d, hd, rfl⟩ := List.mem_map.mp hw
      exact ⟨rfl, hstops d hd⟩
    · rw [List.mem_singleton.mp hw]
      exact ⟨rfl, hloaded.holds hsame⟩

variable {ι θ : Type} [DecidableEq ι] [DecidableEq θ] {thread : ι → θ} {W : World ι θ}

/-- NO UPDATE IS LOST. In every run of any sessions over one store, the aggregates committed
to a capsule have the generations one, two, three; the first was staged on a new run and each
other one on what was committed before it, and a load answers the last. A session that would
commit from another generation is refused and changes nothing the capsule holds. The state of
the project is kept the same way. -/
theorem no_lost_update
    (hrun : ReflTransGen (World.Step thread safe secretSafe) (World.initial ι θ) W) :
    (∀ id i x, (W.history id)[i]? = some x → x.generation = i + 1) ∧
    (∀ id x, (W.history id)[0]? = some x → ∃ run a, run.lastEventSequence = 0 ∧
      Staged safe (newAggregate id run) a ∧ x = a.committed) ∧
    (∀ id i x y, (W.history id)[i]? = some x → (W.history id)[i + 1]? = some y →
      ∃ base a, base.Same x ∧ Staged safe base a ∧ y = a.committed) ∧
    (∀ id x, (W.history id).getLast? = some x →
      ∃ y, ((loadCapsule id x.records.run.id).run (W.store.capsule id)).value = .ok y ∧
        y.Same x) ∧
    (∀ i r a x, W.Idle thread i → W.held i r = some a → a.dirty = true →
      (W.history a.capsuleId).getLast? = some x → x.generation ≠ a.generation →
      ((commitCapsule secretSafe a).run (W.store.capsule a.capsuleId)).value =
          .error (.conflict "Task Capsule changed concurrently; retry") ∧
        ∀ w ∈ commitWrites secretSafe a (W.store.capsule a.capsuleId),
          w.committed = none ∧
            ∃ y, ((loadCapsule a.capsuleId x.records.run.id).run w.disk).value = .ok y ∧
              y.Same x) ∧
    (W.store.state.diskGeneration = .ok (W.projectHistory.length : Int) ∧
      W.store.state.load =
        .ok (W.projectHistory.length, entry W.projectHistory W.projectHistory.length)) ∧
    (∀ k < W.projectHistory.length,
      Updated (entry W.projectHistory k) (entry W.projectHistory (k + 1))) ∧
    (∀ i, (W.members i).session.projectExtensionsDirty = true →
      (W.members i).session.projectGeneration ≠ W.projectHistory.length →
      commitProjectState.run ⟨W.store, (W.members i).session⟩ =
        ⟨[], .error (.conflict "Project filesystem state changed concurrently; retry"),
          ⟨W.store, (W.members i).session⟩⟩) := by
  obtain ⟨hinv, hproject⟩ := World.inv_of_run hrun
  refine ⟨fun id i x hx => ((hinv.chain id).entry i x hx).1,
    fun id x hx => (hinv.chain id).first hx,
    fun id i x y hx hy => (hinv.chain id).consecutive hx hy, ?_, ?_,
    ⟨hproject.diskGeneration, ?_⟩, hproject.chain, ?_⟩
  · intro id x hx
    obtain ⟨-, hid, -, -⟩ := (hinv.chain id).last hx
    have hloads := ((hinv.disk id).holds hx).loads
    rwa [hid] at hloads
  · intro i r a x hidle hheld hdirty hx hne
    obtain ⟨-, hid, -, -⟩ := (hinv.chain a.capsuleId).last hx
    cases hnew : a.isNew with
    | true =>
      obtain ⟨-, hhistory, -⟩ := hinv.new_of_idle hidle.1 hheld hnew
      rw [hhistory] at hx
      cases hx
    | false =>
      obtain ⟨hvalue, hwrites⟩ := ((hinv.disk _).holds hx).commit_stale hnew hne hdirty
      refine ⟨hvalue, fun w hw => ⟨(hwrites w hw).1, ?_⟩⟩
      have hloads := (hwrites w hw).2.loads
      rwa [hid] at hloads
  · rcases hproject.disk with ⟨hempty, hstate⟩ | ⟨hne, hstate⟩
    · rw [hstate, hempty]
      rfl
    · have hlength : 0 < W.projectHistory.length := List.length_pos_iff.mpr hne
      rw [hstate]
      simp only [ProjectStateFile.load]
      rw [if_pos ⟨trivial, by omega⟩]
  · intro i hdirty hne
    exact commitProjectState_stale hdirty hproject.diskGeneration (fun h => hne h.symm)

end Result

/-- One session creates a run, stages its first event and is stopped at the first write of
its commit. -/
theorem sampleNew_committed :
    ∃ W : World Nat Nat,
      ReflTransGen (World.Step id (fun _ => true) (fun _ => true)) (World.initial Nat Nat) W ∧
        W.history "ORQ-20260101-0001" = [sampleNew.committed] := by
  have hcreate := ReflTransGen.single (@World.Step.create _ _ _ _ (id : Nat → Nat)
    (fun _ => true) (fun _ => true) (World.initial Nat Nat) 0 sampleNewRun
    "ORQ-20260101-0001" ⟨rfl, by rintro j ⟨⟩⟩ rfl rfl rfl rfl (by rintro j - ⟨⟩))
  have hstage := hcreate.tail (@World.Step.stage _ _ _ _ _ _ _ _ 0 (.uuid4 1)
    (newAggregate "ORQ-20260101-0001" sampleNewRun) sampleNew.records
    ⟨rfl, by rintro j ⟨⟩⟩ rfl (@Staging.append _ _ _ sampleDraft
      ((newAggregate "ORQ-20260101-0001" sampleNewRun).records.eventOf sampleDraft) rfl))
  have hcommit := hstage.tail (@World.Step.commit _ _ _ _ _ _ _ _ 0 (.uuid4 1) sampleNew
    ⟨rfl, by rintro j ⟨⟩⟩ rfl rfl ?_)
  · exact ⟨_, hcommit.tail (.tick 0 rfl rfl), rfl⟩
  · intro j hj
    have hj : j ≠ 0 := hj
    simp [World.setSession, World.setMember, World.initial, hj]

/-- The history of the run is one aggregate, of the first generation. -/
theorem sampleNew_history :
    ∃ W : World Nat Nat,
      ReflTransGen (World.Step id (fun _ => true) (fun _ => true)) (World.initial Nat Nat) W ∧
        (W.history "ORQ-20260101-0001").length = 1 ∧
        ∀ x, (W.history "ORQ-20260101-0001")[0]? = some x → x.generation = 1 := by
  obtain ⟨W, hrun, hhistory⟩ := sampleNew_committed
  exact ⟨W, hrun, by rw [hhistory]; rfl, fun x hx => (no_lost_update hrun).1 _ 0 x hx⟩

end Orqalis
