import Orqalis.Persistence.Metadata
import Orqalis.Persistence.Index
import Orqalis.Persistence.NoLostUpdate

/-!
# The identity of runs

A run is bound to a capsule by the metadata in place there, or by a session that holds its
new aggregate and has not committed it. No step but a creation binds a run. A creation looks
at the metadata and at its own session, not at what other sessions have reserved: two of them
may create one run, and both commit.
-/

namespace Orqalis

open Lib Lib.Crash Lib.System Relation

/-- The checks of `create_capsule`, before a directory is reserved; `safeRequest` is that of
the diagnostics. -/
def checkCreate (safeRequest : String → Bool) (s : Store) (session : Session) (run : Run) :
    Except Error Unit :=
  if session.capsules.has run.id then
    .error (.conflict "Run identity already exists")
  else do
    match ← s.capsuleId run.id with
    | some _ => .error (.conflict "Run identity already exists")
    | none =>
      if safeRequest run.request then
        .ok ()
      else
        .error (.policyDenied "Run requests cannot contain credentials")

/-! ## The run of a history -/

section Histories

variable {safe : String → Bool} {id : String} {history : List Aggregate} {a x y base : Aggregate}

theorem Derived.run (h : Derived safe base a) : a.records.run.id = base.records.run.id :=
  (Extends.of_calls h.calls).id

theorem Aggregate.Same.run (h : x.Same y) : x.records.run.id = y.records.run.id :=
  congrArg Run.id h.records.run

/-- The entries of a chain are of one run. -/
theorem Chain.run (h : Chain safe id history) (hx : x ∈ history) (hy : y ∈ history) :
    x.records.run.id = y.records.run.id := by
  -- Each entry is of the run of the last.
  have hlast : ∀ z, history.getLast? = some z → ∀ x ∈ history,
      x.records.run.id = z.records.run.id := by
    clear hx hy
    induction h with
    | nil => simp
    | @snoc history w h hw ih =>
      intro z hz x hx
      have hwz : w = z := by simpa using hz
      subst hwz
      rcases List.mem_append.mp hx with hold | hnew
      · obtain ⟨base, a, hbase, hstaged, rfl⟩ := hw
        have hrun : a.committed.records.run.id = base.records.run.id :=
          (Extends.of_calls hstaged.calls).id
        cases hget : history.getLast? with
        | none => simp [List.getLast?_eq_none_iff.mp hget] at hold
        | some v =>
          unfold Base at hbase
          rw [hget] at hbase
          rw [ih v hget x hold, hrun]
          exact (Aggregate.Same.run hbase).symm
      · rw [List.mem_singleton.mp hnew]
  cases hget : history.getLast? with
  | none => simp [List.getLast?_eq_none_iff.mp hget] at hx
  | some z => rw [hlast z hget x hx, hlast z hget y hy]

/-- A current aggregate is of the run of the history. -/
theorem Current.run (h : Current safe history a) :
    ∃ y ∈ history, a.records.run.id = y.records.run.id := by
  obtain ⟨-, base, y, i, hy, hsame, hderived⟩ := h
  exact ⟨y, List.mem_of_getElem? hy, hderived.run.trans hsame.run⟩

end Histories

/-! ## Metadata in a world -/

variable {ι θ : Type} {thread : ι → θ} {safe : String → Bool}
  {secretSafe : StateDocument → Bool} {W W' : World ι θ}

/-- The metadata of a capsule is in place. -/
def World.Present (W : World ι θ) (id : String) : Prop := (W.store.capsule id).HasTask

/-- What holds of the metadata in a section under way. -/
structure World.SectionTasks (W : World ι θ) (s : Section ι) : Prop where
  writes : ∀ x ∈ after (W.history s.capsule) s.pending, ∀ w ∈ s.pending,
    Tasked s.capsule x.records.run.id w.disk
  grows : (W.store.capsule s.capsule :: s.pending.map Write.disk).Pairwise fun c d =>
    c.HasTask → d.HasTask
  ends : ∀ b, s.value = .ok b → s.purpose ≠ .check →
    (lastDisk (W.store.capsule s.capsule) s.pending).HasTask
  origin : W.Present s.capsule ∨ ∃ r a, W.held s.owner r = some a ∧ a.isNew = true ∧
    a.capsuleId = s.capsule

/-- Metadata names the run of its history, and that of a capsule some session holds an
aggregate of is in place, but for new ones. -/
structure World.Tasks (W : World ι θ) : Prop where
  content : ∀ id, ∀ x ∈ W.history id, Tasked id x.records.run.id (W.store.capsule id)
  sections : ∀ t s, W.sections t = some s → W.SectionTasks s
  held : ∀ i r a, W.held i r = some a → a.isNew = false → W.Present a.capsuleId

theorem World.tasks_initial : (World.initial ι θ).Tasks where
  content := by simp [World.initial]
  sections := by simp [World.initial]
  held := by simp [World.initial, World.held]

/-- The metadata is about the directories, the histories, the sections and what is held. -/
theorem World.Tasks.congr (h : W.Tasks)
    (hcapsule : ∀ id, W'.store.capsule id = W.store.capsule id) (hhistory : W'.history = W.history)
    (hsections : ∀ t s, W'.sections t = some s → W.sections t = some s ∧
      ∀ r a, W.held s.owner r = some a → a.isNew = true →
        ∃ r' b, W'.held s.owner r' = some b ∧ b.isNew = true ∧ b.capsuleId = a.capsuleId)
    (hheld : ∀ i r a, W'.held i r = some a → a.isNew = false → W.Present a.capsuleId) :
    W'.Tasks where
  content := by simpa only [hhistory, hcapsule] using h.content
  sections := by
    intro t s hs
    obtain ⟨hold, hnew⟩ := hsections t s hs
    have hok := h.sections t s hold
    refine ⟨by simpa only [hhistory] using hok.writes, by simpa only [hcapsule] using hok.grows,
      by simpa only [hcapsule] using hok.ends, ?_⟩
    rcases hok.origin with hpresent | ⟨r, a, ha, hanew, hid⟩
    · left
      unfold World.Present
      rw [hcapsule]
      exact hpresent
    · obtain ⟨r', b, hb, hbnew, hsame⟩ := hnew r a ha hanew
      exact .inr ⟨r', b, hb, hbnew, hsame.trans hid⟩
  held := by
    intro i r a ha hnew
    unfold World.Present
    rw [hcapsule]
    exact hheld i r a ha hnew

section Steps

variable [DecidableEq ι] [DecidableEq θ]

@[simp] theorem World.held_enter (W : World ι θ) (s : Section ι) (i : ι) (r : UUID) :
    (W.enter thread s).held i r = W.held i r := by
  by_cases hi : i = s.owner
  · subst hi
    simp [World.held, World.enter, World.setMember, World.setSection]
  · simp [World.held, World.enter, World.setMember, World.setSection, hi]

@[simp] theorem World.section_enter (W : World ι θ) (s : Section ι) :
    (W.enter thread s).sections (thread s.owner) = some s := by
  simp [World.enter, World.setMember, World.setSection]

/-- A section may begin with what holds of its metadata. -/
theorem World.Tasks.enter (h : W.Tasks) {s : Section ι} (hs : W.SectionTasks s) :
    (W.enter thread s).Tasks where
  content := h.content
  sections := by
    intro t s' hs'
    have hok : W.SectionTasks s' := by
      by_cases ht : t = thread s.owner
      · subst ht
        have heq : s' = s := by
          simpa [World.enter, World.setMember, World.setSection] using hs'.symm
        exact heq ▸ hs
      · exact h.sections t s' (by
          simpa [World.enter, World.setMember, World.setSection, ht] using hs')
    refine ⟨hok.writes, hok.grows, hok.ends, ?_⟩
    simp only [World.held_enter]
    exact hok.origin
  held := by
    intro i r a ha hnew
    rw [World.held_enter] at ha
    exact h.held i r a ha hnew

omit [DecidableEq ι] in
/-- A write keeps what holds of the metadata. -/
theorem World.Tasks.tick (h : W.Tasks) (hW : W.Inv thread safe secretSafe) {t : θ}
    {s : Section ι} {w : Write} {rest : List Write} (hs : W.sections t = some s)
    (hpending : s.pending = w :: rest) : (W.tick t s w rest).Tasks := by
  have hok := h.sections t s hs
  have hgrows := hok.grows
  rw [hpending, List.map_cons] at hgrows
  obtain ⟨hfirst, hlater⟩ := List.pairwise_cons.mp hgrows
  have hself : (W.tick t s w rest).store.capsule s.capsule = w.disk :=
    Store.capsule_putCapsule ..
  have hother : ∀ id, id ≠ s.capsule →
      (W.tick t s w rest).store.capsule id = W.store.capsule id :=
    fun id hid => Store.capsule_putCapsule_ne _ _ hid
  have hhistory : (W.tick t s w rest).history s.capsule =
      W.history s.capsule ++ w.committed.toList := by
    unfold World.tick
    cases w.committed <;> simp
  have hhistoryOther : ∀ id, id ≠ s.capsule →
      (W.tick t s w rest).history id = W.history id := by
    intro id hid
    unfold World.tick
    cases w.committed <;> simp [hid]
  have hafter : after ((W.tick t s w rest).history s.capsule) rest =
      after (W.history s.capsule) s.pending := by
    rw [hhistory, hpending]
    unfold after
    cases hw : w.committed <;> simp [hw]
  have hpresent : ∀ id, W.Present id → (W.tick t s w rest).Present id := by
    intro id hid
    unfold World.Present
    by_cases heq : id = s.capsule
    · rw [heq, hself]
      exact hfirst w.disk List.mem_cons_self (heq ▸ hid)
    · rw [hother id heq]
      exact hid
  constructor
  · intro id x hx
    by_cases heq : id = s.capsule
    · subst heq
      rw [hself]
      refine hok.writes x ?_ w (by simp [hpending])
      rw [← hafter]
      exact List.mem_append_left _ hx
    · rw [hother id heq]
      rw [hhistoryOther id heq] at hx
      exact h.content id x hx
  · intro t' s' hs'
    by_cases ht : t' = t
    · subst ht
      have heq : s' = { s with pending := rest } := by simpa [World.tick] using hs'.symm
      subst heq
      refine ⟨?_, ?_, ?_, ?_⟩
      · intro x hx v hv
        dsimp only at hx hv ⊢
        rw [hafter] at hx
        exact hok.writes x hx v (by simp [hpending, hv])
      · dsimp only
        rw [hself]
        exact hlater
      · intro b hb hpurpose
        have hend := hok.ends b hb hpurpose
        dsimp only
        rw [hself]
        rw [hpending] at hend
        simpa [lastDisk] using hend
      · rcases hok.origin with hold | hnew
        · exact .inl (hpresent _ hold)
        · exact .inr hnew
    · have hold : W.sections t' = some s' := by simpa [World.tick, ht] using hs'
      have hne : s'.capsule ≠ s.capsule := fun heq => ht (hW.section_unique hs hold heq)
      have hok' := h.sections t' s' hold
      refine ⟨?_, ?_, ?_, ?_⟩
      · rw [hhistoryOther _ hne]
        exact hok'.writes
      · rw [hother _ hne]
        exact hok'.grows
      · rw [hother _ hne]
        exact hok'.ends
      · rcases hok'.origin with hold | hnew
        · exact .inl (hpresent _ hold)
        · exact .inr hnew
  · intro i r a ha hnew
    exact hpresent _ (h.held i r a ha hnew)

omit [DecidableEq ι] [DecidableEq θ] in
/-- A load and a comparison read a capsule whose metadata is in place. -/
theorem World.Tasks.plain (h : W.Tasks) (hW : W.Inv thread safe secretSafe)
    {m : CapsuleProg Aggregate} {id : String} {i : ι} {purpose : Purpose} {x : Aggregate}
    (hx : (W.history id).getLast? = some x) (hpresent : W.Present id)
    (hgrows : Grows Capsule.HasTask m)
    (hmeets : ∀ P, Meets recover (W.store.capsule id) P (fun _ t => P t) →
      Meets m (W.store.capsule id) P fun _ t => P t)
    (hafter : after (W.history id) (writesOf (m.run (W.store.capsule id))) = W.history id) :
    W.SectionTasks
      { owner := i
        capsule := id
        purpose
        pending := writesOf (m.run (W.store.capsule id))
        value := (m.run (W.store.capsule id)).value } := by
  have hmem : x ∈ W.history id := List.mem_of_getLast? hx
  have hid : x.capsuleId = id := ((hW.chain id).last hx).2.1
  refine ⟨?_, ?_, ?_, .inl hpresent⟩
  · intro y hy w hw
    rw [hafter] at hy
    rw [(hW.chain id).run hy hmem]
    have hrecover := ((hW.disk id).holds hx).tasked (hid ▸ h.content id x hmem)
    rw [hid] at hrecover
    exact forall_writesOf (hmeets _ hrecover) w hw
  · rw [map_writesOf]
    exact hgrows _
  · intro b _ _
    rw [lastDisk_writesOf]
    exact (hgrows.meets hpresent).2

omit [DecidableEq ι] [DecidableEq θ] in
/-- A commit writes the metadata of the run it is of. -/
theorem World.Tasks.commit (h : W.Tasks) (hW : W.Inv thread safe secretSafe) {i : ι}
    {runId : UUID} {a : Aggregate} (hidle : W.sections (thread i) = none)
    (ha : W.held i runId = some a) (hdirty : a.dirty = true) :
    W.SectionTasks
      { owner := i
        capsule := a.capsuleId
        purpose := .commit
        pending := commitWrites secretSafe a (W.store.capsule a.capsuleId)
        value := ((commitCapsule secretSafe a).run (W.store.capsule a.capsuleId)).value } := by
  have hchecked := hW.checked hidle ha
  -- Before the commit the directory names the run of the aggregate, if any.
  obtain ⟨hrun, hrecover, horigin⟩ :
      (∀ y ∈ W.history a.capsuleId, y.records.run.id = a.records.run.id) ∧
      Meets recover (W.store.capsule a.capsuleId) (Tasked a.capsuleId a.records.run.id)
        (fun _ t => Tasked a.capsuleId a.records.run.id t) ∧
      (W.Present a.capsuleId ∨ a.isNew = true) := by
    cases hnew : a.isNew with
    | true =>
      obtain ⟨-, hhistory, -⟩ := hW.new_of_idle hidle ha hnew
      have hdisk := hW.disk a.capsuleId
      rw [hhistory] at hdisk ⊢
      have hdisk : W.store.capsule a.capsuleId = .empty := hdisk
      rw [hdisk]
      refine ⟨by simp, ?_, .inr rfl⟩
      unfold Meets
      rw [run_recover_of_marker rfl]
      exact ⟨by simp, .inl rfl⟩
    | false =>
      obtain ⟨hcurrent, x, hx⟩ := hW.current_of_held ha hnew
      obtain ⟨y, hy, hay⟩ := hcurrent.run
      have hmem := List.mem_of_getLast? hx
      have hid : x.capsuleId = a.capsuleId := ((hW.chain _).last hx).2.1
      have hxa : x.records.run.id = a.records.run.id :=
        ((hW.chain _).run hmem hy).trans hay.symm
      refine ⟨fun z hz => ((hW.chain _).run hz hy).trans hay.symm, ?_,
        .inl (h.held i runId a ha hnew)⟩
      have hrecover := ((hW.disk a.capsuleId).holds hx).tasked (by
        rw [hid]
        exact h.content _ x hmem)
      rwa [hid, hxa] at hrecover
  have htasked : Tasked a.capsuleId a.records.run.id (W.store.capsule a.capsuleId) := by
    rcases horigin with hpresent | hnew
    · cases hlast : (W.history a.capsuleId).getLast? with
      | some x =>
        have hmem := List.mem_of_getLast? hlast
        rw [← hrun x hmem]
        exact h.content _ x hmem
      | none =>
        have hdisk := hW.disk a.capsuleId
        unfold OnDisk at hdisk
        rw [hlast] at hdisk
        exact absurd (by rw [hdisk]; rfl) hpresent
    · obtain ⟨-, hhistory, -⟩ := hW.new_of_idle hidle ha hnew
      have hdisk := hW.disk a.capsuleId
      rw [hhistory] at hdisk
      have hdisk : W.store.capsule a.capsuleId = .empty := hdisk
      rw [hdisk]
      exact .inl rfl
  obtain ⟨hwrites, hend⟩ := commit_tasked hchecked hdirty rfl rfl hrecover htasked
  obtain ⟨-, hvalue⟩ := commit_section hchecked hdirty
  refine ⟨?_, ?_, ?_, ?_⟩
  · intro y hy w hw
    have hy : y.records.run.id = a.records.run.id := by
      rcases hvalue with ⟨-, hafter⟩ | ⟨-, hnone⟩
      · rw [hafter] at hy
        rcases List.mem_append.mp hy with hold | hnew
        · exact hrun y hold
        · rw [List.mem_singleton.mp hnew]
          rfl
      · have hafter : after (W.history a.capsuleId)
            (commitWrites secretSafe a (W.store.capsule a.capsuleId)) =
              W.history a.capsuleId := by
          unfold after
          rw [List.filterMap_eq_nil_iff.mpr hnone, List.append_nil]
        rw [hafter] at hy
        exact hrun y hy
    rw [hy]
    exact hwrites w hw
  · dsimp only
    rw [commitWrites_disks hdirty, map_writesOf]
    exact grows_commitCapsule secretSafe a _
  · intro b hb _
    rw [lastDisk_commitWrites hdirty]
    exact hend b hb
  · rcases horigin with hpresent | hnew
    · exact .inl hpresent
    · exact .inr ⟨runId, a, ha, hnew, rfl⟩

/-! ## Runs bound to capsules -/

/-- A run is bound to a capsule: by the metadata in place, or by a session that holds its new
aggregate. -/
def World.Bound (W : World ι θ) (id : String) (r : UUID) : Prop :=
  W.Present id ∧ (∃ x ∈ W.history id, x.records.run.id = r) ∨
    ∃ i a, W.held i r = some a ∧ a.isNew = true ∧ a.capsuleId = id

omit [DecidableEq ι] [DecidableEq θ] in
/-- What leaves the directories and the histories and holds no other new aggregates binds no
other runs. -/
theorem World.Bound.of_congr (hcapsule : ∀ id, W'.store.capsule id = W.store.capsule id)
    (hhistory : W'.history = W.history)
    (hheld : ∀ i r a, W'.held i r = some a → a.isNew = true →
      ∃ b, W.held i r = some b ∧ b.isNew = true ∧ b.capsuleId = a.capsuleId)
    {id : String} {r : UUID} (h : W'.Bound id r) : W.Bound id r := by
  rcases h with ⟨hpresent, hrun⟩ | ⟨i, a, ha, hnew, hid⟩
  · unfold World.Present at hpresent
    rw [hcapsule] at hpresent
    rw [hhistory] at hrun
    exact .inl ⟨hpresent, hrun⟩
  · obtain ⟨b, hb, hbnew, hsame⟩ := hheld i r a ha hnew
    exact .inr ⟨i, b, hb, hbnew, hsame.trans hid⟩

omit [DecidableEq ι] in
/-- A write binds no run that was not bound. -/
theorem World.Bound.of_tick (hW : W.Inv thread safe secretSafe) (h : W.Tasks) {t : θ}
    {s : Section ι} {w : Write} {rest : List Write} (hs : W.sections t = some s)
    (hpending : s.pending = w :: rest) {id : String} {r : UUID}
    (hbound : (W.tick t s w rest).Bound id r) : W.Bound id r := by
  rcases hbound with ⟨hpresent, x, hx, hrun⟩ | hnew
  · by_cases hid : id = s.capsule
    · subst hid
      have hok := hW.sections t s hs
      -- The entry is one the section leads to, and so is every other of this history.
      have hmem : x ∈ after (W.history s.capsule) s.pending := by
        have hhistory : (W.tick t s w rest).history s.capsule =
            W.history s.capsule ++ w.committed.toList := by
          unfold World.tick
          cases w.committed <;> simp
        rw [hhistory] at hx
        rw [hpending]
        unfold after
        cases hw : w.committed with
        | none =>
          rw [hw] at hx
          exact List.mem_append_left _ (by simpa using hx)
        | some y =>
          rw [hw] at hx
          rcases List.mem_append.mp hx with hold | hnew
          · exact List.mem_append_left _ hold
          · refine List.mem_append_right _ ?_
            have hxy : x = y := by simpa using hnew
            simp [hw, hxy]
      have hchain := hok.pending.chain (hW.chain s.capsule)
      rcases (h.sections t s hs).origin with hold | ⟨q, a, ha, hnew, hid⟩
      · left
        refine ⟨hold, ?_⟩
        cases hlast : (W.history s.capsule).getLast? with
        | some y =>
          have hy := List.mem_of_getLast? hlast
          exact ⟨y, hy, (hchain.run (List.mem_append_left _ hy) hmem).trans hrun⟩
        | none =>
          have hdisk := hW.disk s.capsule
          unfold OnDisk at hdisk
          rw [hlast] at hdisk
          exact absurd (by rw [hdisk]; rfl) hold
      · right
        refine ⟨s.owner, a, ?_, hnew, hid⟩
        have hq : a.records.run.id = q := World.run_of_held ha
        have hbrun : ∀ b, s.value = .ok b → s.purpose = .commit →
            b.records.run.id = a.records.run.id → a.records.run.id = r := by
          intro b hb hpurpose hab
          rcases hok.answer b hb with hcheck | ⟨hcurrent, -⟩
          · rw [hpurpose] at hcheck
            cases hcheck
          · obtain ⟨y, hy, hby⟩ := hcurrent.run
            rw [← hab, hby, hchain.run hy hmem, hrun]
        have hr : a.records.run.id = r := by
          rcases hW.held s.owner q a ha with hcurrent | ⟨-, -, -, hempty | hsection⟩
          · rw [hcurrent.1] at hnew
            cases hnew
          · -- The history was empty, so the section is the commit that made its entry.
            have hcommitted : ∃ v ∈ s.pending, v.committed ≠ none := by
              rw [hid] at hempty
              rw [hempty] at hmem
              unfold after at hmem
              obtain ⟨v, hv, hvx⟩ := List.mem_filterMap.mp (by simpa using hmem)
              exact ⟨v, hv, by rw [hvx]; simp⟩
            obtain ⟨hpurpose, b, q', a', hb, ha', hid', hab⟩ := hok.effect hcommitted
            have haa : a' = a := by
              rcases hW.held s.owner q' a' ha' with hcurrent' | ⟨hnew', -⟩
              · obtain ⟨y, hy, -⟩ := hcurrent'.run
                rw [hid', ← hid, hempty] at hy
                cases hy
              · have hfresh := hW.fresh s.owner s.owner q' q a' a ha' ha hnew' hnew
                  (hid'.trans hid.symm)
                rw [hfresh.2] at ha'
                exact Option.some.inj (ha'.symm.trans ha)
            subst haa
            exact hbrun b hb hpurpose hab
          · obtain ⟨s', b, hs', -, -, hpurpose, hb, hab⟩ := hsection
            have heq : s' = s := by
              rw [hok.owner, hs] at hs'
              exact (Option.some.inj hs').symm
            subst heq
            exact hbrun b hb hpurpose hab
        rw [← hr, hq]
        exact ha
    · left
      have hcapsule : (W.tick t s w rest).store.capsule id = W.store.capsule id :=
        Store.capsule_putCapsule_ne _ _ hid
      have hhistory : (W.tick t s w rest).history id = W.history id := by
        unfold World.tick
        cases w.committed <;> simp [hid]
      unfold World.Present at hpresent
      rw [hcapsule] at hpresent
      rw [hhistory] at hx
      exact ⟨hpresent, x, hx, hrun⟩
  · exact .inr hnew

/-! ## What a step binds -/

/-- A session comes to hold a new aggregate of a run. -/
def World.Created (W W' : World ι θ) (i : ι) (r : UUID) : Prop :=
  W.held i r = none ∧ ∃ a, W'.held i r = some a ∧ a.isNew = true

/-- What is held after a section: what was held, or its answer. -/
theorem World.held_leave {t : θ} {s : Section ι} {j : ι} {r : UUID} {a : Aggregate}
    (ha : ((W.setMember s.owner (World.finish (W.members s.owner) s)).setSection t none).held j r =
      some a) :
    W.held j r = some a ∨ s.purpose ≠ .check ∧ s.value = .ok a := by
  by_cases hj : j = s.owner
  · subst hj
    have hput : ∀ b, s.value = .ok b → s.purpose ≠ .check →
        ((W.members s.owner).session.capsules.put b).get? r = some a →
        W.held s.owner r = some a ∨ s.purpose ≠ .check ∧ s.value = .ok a := by
      intro b hb hpurpose hget
      rw [Table.get?_put] at hget
      split at hget
      · cases hget
        exact .inr ⟨hpurpose, hb⟩
      · exact .inl hget
    have ha : (World.finish (W.members s.owner) s).session.capsules.get? r = some a := by
      simpa [World.held, World.setSection, World.setMember] using ha
    unfold World.finish at ha
    split at ha
    · next hpurpose hb => exact hput _ hb (by simp [hpurpose]) ha
    · next hpurpose hb => exact hput _ hb (by simp [hpurpose]) ha
    · exact .inl ha
  · left
    simpa [World.held, World.setSection, World.setMember, hj] using ha

omit [DecidableEq ι] [DecidableEq θ] in
/-- What leaves everything but the project and the locks. -/
theorem World.Tasks.of_same (h : W.Tasks)
    (hcapsule : ∀ id, W'.store.capsule id = W.store.capsule id) (hhistory : W'.history = W.history)
    (hsections : W'.sections = W.sections) (hheld : ∀ i r, W'.held i r = W.held i r) :
    W'.Tasks ∧ ∀ id r, W'.Bound id r → W.Bound id r := by
  refine ⟨h.congr hcapsule hhistory ?_ ?_, fun id r hbound => ?_⟩
  · intro t s hs
    rw [hsections] at hs
    exact ⟨hs, fun r a ha hnew => ⟨r, a, (hheld _ r).trans ha, hnew, rfl⟩⟩
  · intro i r a ha hnew
    rw [hheld] at ha
    exact h.held i r a ha hnew
  · refine World.Bound.of_congr hcapsule hhistory ?_ hbound
    intro i q a ha hnew
    rw [hheld] at ha
    exact ⟨a, ha, hnew, rfl⟩

omit [DecidableEq ι] [DecidableEq θ] in
/-- An idle session that holds less, or changes what it holds, leaves what the sections of the
others are about. -/
theorem World.Tasks.member (h : W.Tasks) (hW : W.Inv thread safe secretSafe) {i : ι}
    (hidle : W.sections (thread i) = none)
    (hcapsule : ∀ id, W'.store.capsule id = W.store.capsule id) (hhistory : W'.history = W.history)
    (hsections : W'.sections = W.sections)
    (hother : ∀ j, j ≠ i → ∀ r, W'.held j r = W.held j r)
    (hself : ∀ r a, W'.held i r = some a →
      ∃ b, W.held i r = some b ∧ b.isNew = a.isNew ∧ b.capsuleId = a.capsuleId) :
    W'.Tasks ∧ ∀ id r, W'.Bound id r → W.Bound id r := by
  have hold : ∀ j r a, W'.held j r = some a →
      ∃ b, W.held j r = some b ∧ b.isNew = a.isNew ∧ b.capsuleId = a.capsuleId := by
    intro j r a ha
    by_cases hj : j = i
    · subst hj
      exact hself r a ha
    · rw [hother j hj] at ha
      exact ⟨a, ha, rfl, rfl⟩
  refine ⟨h.congr hcapsule hhistory ?_ ?_, fun id r hbound => ?_⟩
  · intro t s hs
    rw [hsections] at hs
    refine ⟨hs, fun r a ha hnew => ⟨r, a, ?_, hnew, rfl⟩⟩
    rw [hother _ (hW.owner_ne hidle hs)]
    exact ha
  · intro j r a ha hnew
    obtain ⟨b, hb, hbnew, hid⟩ := hold j r a ha
    rw [← hid]
    exact h.held j r b hb (hbnew.trans hnew)
  · refine World.Bound.of_congr hcapsule hhistory ?_ hbound
    intro j q a ha hnew
    obtain ⟨b, hb, hbnew, hid⟩ := hold j q a ha
    exact ⟨b, hb, hbnew.trans hnew, hid⟩

/-- A section binds nothing when it begins. -/
theorem World.Tasks.enter_bound (h : W.Tasks) {s : Section ι} (hs : W.SectionTasks s) :
    (W.enter thread s).Tasks ∧ ∀ id r, (W.enter thread s).Bound id r → W.Bound id r := by
  refine ⟨h.enter hs, fun id r hbound => World.Bound.of_congr ?_ ?_ ?_ hbound⟩
  · exact fun _ => rfl
  · rfl
  · intro i q a ha hnew
    rw [World.held_enter] at ha
    exact ⟨a, ha, hnew, rfl⟩

/-- The end of a section binds nothing: its answer is of a capsule whose metadata is in
place. -/
theorem World.Tasks.leave (h : W.Tasks) (hW : W.Inv thread safe secretSafe) {t : θ}
    {s : Section ι} (hs : W.sections t = some s) (hpending : s.pending = [])
    (hW' : W' = (W.setMember s.owner (World.finish (W.members s.owner) s)).setSection t none) :
    W'.Tasks ∧ ∀ id r, W'.Bound id r → W.Bound id r := by
  have hok := hW.sections t s hs
  have hcapsule : ∀ id, W'.store.capsule id = W.store.capsule id := by
    rw [hW']
    exact fun _ => rfl
  have hhistory : W'.history = W.history := by
    rw [hW']
    rfl
  have hanswer : ∀ b, s.value = .ok b → s.purpose ≠ .check →
      b.isNew = false ∧ W.Present b.capsuleId := by
    intro b hb hpurpose
    rcases hok.answer b hb with hcheck | ⟨hcurrent, hid⟩
    · exact absurd hcheck hpurpose
    · refine ⟨hcurrent.1, ?_⟩
      have hend := (h.sections t s hs).ends b hb hpurpose
      rw [hpending] at hend
      rw [hid]
      exact hend
  have hleft : ∀ j r a, W'.held j r = some a →
      W.held j r = some a ∨ s.purpose ≠ .check ∧ s.value = .ok a := by
    intro j r a ha
    rw [hW'] at ha
    exact World.held_leave ha
  refine ⟨h.congr hcapsule hhistory ?_ ?_, fun id r hbound =>
    World.Bound.of_congr hcapsule hhistory ?_ hbound⟩
  · intro t' s' hs'
    rw [hW'] at hs' ⊢
    by_cases ht : t' = t
    · subst ht
      simp [World.setSection] at hs'
    · have hold : W.sections t' = some s' := by
        simpa [World.setSection, World.setMember, ht] using hs'
      refine ⟨hold, fun r a ha hnew => ⟨r, a, ?_, hnew, rfl⟩⟩
      have hne : s'.owner ≠ s.owner := by
        intro heq
        apply ht
        rw [← (hW.sections t' s' hold).owner, ← hok.owner, heq]
      simpa [World.held, World.setSection, World.setMember, hne] using ha
  · intro j r a ha hnew
    rcases hleft j r a ha with hold | ⟨hpurpose, hb⟩
    · exact h.held j r a hold hnew
    · exact (hanswer a hb hpurpose).2
  · intro j r a ha hnew
    rcases hleft j r a ha with hold | ⟨hpurpose, hb⟩
    · exact ⟨a, hold, hnew, rfl⟩
    · rw [(hanswer a hb hpurpose).1] at hnew
      cases hnew

omit [DecidableEq ι] in
/-- A stop binds nothing. -/
theorem World.Tasks.stop (h : W.Tasks) (hW : W.Inv thread safe secretSafe) (t : θ)
    (hW' : W' = { W with
      members := fun i => if thread i = t then {} else W.members i
      sections := Function.update W.sections t none
      projectLock := W.projectLock.filter fun j => thread j ≠ t }) :
    W'.Tasks ∧ ∀ id r, W'.Bound id r → W.Bound id r := by
  have hcapsule : ∀ id, W'.store.capsule id = W.store.capsule id := by
    rw [hW']
    exact fun _ => rfl
  have hhistory : W'.history = W.history := by
    rw [hW']
  have hheld : ∀ j r a, W'.held j r = some a → W.held j r = some a := by
    intro j r a ha
    rw [hW'] at ha
    by_cases hj : thread j = t
    · simp [World.held, hj] at ha
    · simpa [World.held, hj] using ha
  refine ⟨h.congr hcapsule hhistory ?_ fun j r a ha => h.held j r a (hheld j r a ha),
    fun id r hbound => World.Bound.of_congr hcapsule hhistory
      (fun i q a ha hnew => ⟨a, hheld i q a ha, hnew, rfl⟩) hbound⟩
  intro t' s hs
  rw [hW'] at hs ⊢
  by_cases ht : t' = t
  · subst ht
    simp at hs
  · have hold : W.sections t' = some s := by simpa [ht] using hs
    refine ⟨hold, fun r a ha hnew => ⟨r, a, ?_, hnew, rfl⟩⟩
    have howner : thread s.owner ≠ t := by
      rw [(hW.sections t' s hold).owner]
      exact ht
    simpa [World.held, howner] using ha

omit [DecidableEq θ] in
/-- A creation binds its run to the directory it reserves, and nothing else. -/
theorem World.Tasks.create (h : W.Tasks) (hW : W.Inv thread safe secretSafe) {i : ι} {run : Run}
    {id : String} {locks : List String} (hidle : W.sections (thread i) = none)
    (hfresh : W.store.capsules.has id = false)
    (hW' : W' = { W.setMember i
        { session := { (W.members i).session with
            capsules := (W.members i).session.capsules.put (newAggregate id run) }
          locks } with
        store := W.store.putCapsule id .empty }) :
    W'.Tasks ∧ W'.held i run.id = some (newAggregate id run) ∧
      ∀ id' r, W'.Bound id' r → W.Bound id' r ∨ id' = id ∧ r = run.id := by
  have hempty : W.store.capsule id = .empty := by
    unfold Store.capsule
    have hnone : W.store.capsules.get? id = none := by simpa [Table.has] using hfresh
    rw [hnone]
  have hcapsule : ∀ id', W'.store.capsule id' = W.store.capsule id' := by
    intro id'
    rw [hW']
    by_cases hid : id' = id
    · rw [hid, hempty]
      exact Store.capsule_putCapsule ..
    · exact Store.capsule_putCapsule_ne _ _ hid
  have hhistory : W'.history = W.history := by
    rw [hW']
    rfl
  have hself : W'.held i run.id = some (newAggregate id run) := by
    rw [hW']
    have hget : ((W.members i).session.capsules.put (newAggregate id run)).get? run.id =
        some (newAggregate id run) := Table.get?_put_self ..
    simpa [World.held, World.setMember] using hget
  have hheld : ∀ j r a, W'.held j r = some a →
      W.held j r = some a ∨ a = newAggregate id run ∧ r = run.id := by
    intro j r a ha
    rw [hW'] at ha
    by_cases hj : j = i
    · subst hj
      have ha : ((W.members j).session.capsules.put (newAggregate id run)).get? r = some a := by
        simpa [World.held, World.setMember] using ha
      rw [Table.get?_put] at ha
      split at ha
      · next heq =>
        cases ha
        exact .inr ⟨rfl, heq.symm⟩
      · exact .inl ha
    · left
      simpa [World.held, World.setMember, hj] using ha
  refine ⟨h.congr hcapsule hhistory ?_ ?_, hself, ?_⟩
  · intro t s hs
    have hold : W.sections t = some s := by
      rw [hW'] at hs
      exact hs
    refine ⟨hold, fun r a ha hnew => ⟨r, a, ?_, hnew, rfl⟩⟩
    rw [hW']
    simpa [World.held, World.setMember, hW.owner_ne hidle hold] using ha
  · intro j r a ha hnew
    rcases hheld j r a ha with hold | ⟨rfl, -⟩
    · exact h.held j r a hold hnew
    · cases hnew
  · rintro id' r (⟨hpresent, hrun⟩ | ⟨j, a, ha, hnew, hid⟩)
    · unfold World.Present at hpresent
      rw [hcapsule] at hpresent
      rw [hhistory] at hrun
      exact .inl (.inl ⟨hpresent, hrun⟩)
    · rcases hheld j r a ha with hold | ⟨rfl, hr⟩
      · exact .inl (.inr ⟨j, a, hold, hnew, hid⟩)
      · exact .inr ⟨hid.symm, hr⟩

/-- A step keeps what holds of the metadata and binds no run, but for the one it creates. -/
theorem World.Tasks.step (h : W.Tasks) (hW : W.Inv thread safe secretSafe)
    (hstep : World.Step thread safe secretSafe W W') :
    W'.Tasks ∧ ((∀ id r, W'.Bound id r → W.Bound id r) ∨
      ∃ i r id, W.Created W' i r ∧ W.store.capsuleId r = .ok none ∧
        ∀ id' r', W'.Bound id' r' → W.Bound id' r' ∨ id' = id ∧ r' = r) := by
  have hkeeps : W'.Tasks ∧ (∀ id r, W'.Bound id r → W.Bound id r) →
      W'.Tasks ∧ ((∀ id r, W'.Bound id r → W.Bound id r) ∨
        ∃ i r id, W.Created W' i r ∧ W.store.capsuleId r = .ok none ∧
          ∀ id' r', W'.Bound id' r' → W.Bound id' r' ∨ id' = id ∧ r' = r) :=
    fun hw => ⟨hw.1, .inl hw.2⟩
  cases hstep with
  | load i runId forUpdate hidle hcached hfound hfree =>
    obtain ⟨x, hx⟩ := hW.history_of_found hfound
    have hpresent := hasTask_of_names (Store.names_of_capsuleId_eq_some hfound)
    obtain ⟨⟨-, hafter, -⟩, -⟩ := @load_section _ _ _ _ _ _ runId (hW.chain _) hx (hW.disk _)
    exact hkeeps (h.enter_bound (h.plain hW hx hpresent (grows_loadCapsule _ _)
      (fun P hP => meets_loadCapsule hP) hafter))
  | @check i runId a hidle hcached hold hfree =>
    obtain ⟨-, x, hx⟩ := hW.current_of_held hcached hold
    obtain ⟨-, hafter, -⟩ := @check_section _ _ a.capsuleId _ _ _ a hx (hW.disk _)
    exact hkeeps (h.enter_bound (h.plain hW hx (h.held _ _ _ hcached hold) (grows_checkCached _)
      (fun P hP => meets_checkCached hP) hafter))
  | commit i hidle hcached hdirty hfree =>
    exact hkeeps (h.enter_bound (h.commit hW hidle.1 hcached hdirty))
  | tick t hsection hpending =>
    exact hkeeps ⟨h.tick hW hsection hpending, fun id r => .of_tick hW h hsection hpending⟩
  | leave t hsection hpending => exact hkeeps (h.leave hW hsection hpending rfl)
  | create i run id hidle hcached hnone hfresh hcursor hfree =>
    obtain ⟨htasks, hheld, hbound⟩ := h.create hW hidle.1 hfresh rfl
    exact ⟨htasks, .inr ⟨i, run.id, id, ⟨hcached, _, hheld, rfl⟩, hnone, hbound⟩⟩
  | @stage i runId a records hidle hcached hcall =>
    refine hkeeps (h.member hW hidle.1 (fun _ => rfl) rfl rfl (fun j hj r => ?_) fun r b hb => ?_)
    · exact World.held_setMember_ne W _ hj r
    · have hkey : ({ a with records, dirty := true } : Aggregate).records.run.id = runId :=
        hcall.extends.id.trans (World.run_of_held hcached)
      rw [World.setSession, World.held_setMember_self, Table.get?_put] at hb
      split at hb
      · next heq =>
        cases hb
        have hr : runId = r := hkey.symm.trans heq
        exact ⟨a, hr ▸ hcached, rfl, rfl⟩
      · exact ⟨b, hb, rfl, rfl⟩
  | release i id hidle =>
    refine hkeeps (h.member hW hidle.1 (fun _ => rfl) rfl rfl (fun j hj r => ?_) fun r b hb => ?_)
    · exact World.held_setMember_ne W _ hj r
    · rw [World.held_setMember_self] at hb
      exact ⟨b, hb, rfl, rfl⟩
  | forget i hidle hcached hclean =>
    refine hkeeps (h.member hW hidle.1 (fun _ => rfl) rfl rfl (fun j hj r => ?_) fun r b hb => ?_)
    · exact World.held_setMember_ne W _ hj r
    · rw [World.setSession, World.held_setMember_self] at hb
      exact ⟨b, (Table.get?_filter.mp hb).1, rfl, rfl⟩
  | @rollback i store hidle hstore =>
    refine hkeeps (h.member hW hidle.1 (fun id => ?_) rfl rfl (fun j hj r => ?_) fun r b hb => ?_)
    · have hcapsule : store.capsule id = W.store.capsule id := by
        rcases hstore.2 id with hsame | ⟨hgone, hempty, -⟩
        · simp [Store.capsule, hsame]
        · rw [hempty]
          simp [Store.capsule, hgone]
      exact hcapsule
    · exact World.held_setMember_ne W _ hj r
    · have hb : (W.setMember i {}).held i r = some b := hb
      rw [World.held_setMember_self] at hb
      cases hb
  | stop t => exact hkeeps (h.stop hW t rfl)
  | other index project => exact hkeeps (h.of_same (fun _ => rfl) rfl rfl fun _ _ => rfl)
  | loadProject i hidle hnone hload =>
    refine hkeeps (h.of_same (fun _ => rfl) rfl rfl fun j r => ?_)
    by_cases hj : j = i <;> simp [World.held, World.setSession, World.setMember, hj]
  | saveProject i name value hidle hloaded =>
    refine hkeeps (h.of_same (fun _ => rfl) rfl rfl fun j r => ?_)
    by_cases hj : j = i <;> simp [World.held, World.setSession, World.setMember, hj]
  | checkProject i hidle hfree hdirty hdisk =>
    exact hkeeps (h.of_same (fun _ => rfl) rfl rfl fun _ _ => rfl)
  | writeProject i hlock hloaded =>
    refine hkeeps (h.of_same (fun _ => rfl) rfl rfl fun j r => ?_)
    by_cases hj : j = i <;> simp [World.held, World.setSession, World.setMember, hj]

/-! ## The result -/

/-- No session but the one that creates a run holds a new aggregate of it. -/
def World.Sole (W W' : World ι θ) : Prop :=
  ∀ i r, W.Created W' i r → ∀ j b, W.held j r = some b → b.isNew = false

/-- A committed capsule carries a run: its metadata names it. -/
def World.Carries (W : World ι θ) (id : String) (r : UUID) : Prop :=
  Store.names id (W.store.capsule id) r.text = .ok true

/-- A capsule is used by a run: an aggregate of it was committed there or is held for it, or
the metadata names it. -/
def World.Uses (W : World ι θ) (id : String) (r : UUID) : Prop :=
  (∃ x ∈ W.history id, x.records.run.id = r) ∨
    (∃ i a, W.held i r = some a ∧ a.capsuleId = id) ∨ W.Carries id r

omit [DecidableEq ι] [DecidableEq θ] in
/-- What a capsule carries is the run of its history. -/
theorem World.Carries.run (h : W.Tasks) (hW : W.Inv thread safe secretSafe) {id : String}
    {r : UUID} (hcarries : W.Carries id r) :
    W.Present id ∧ ∃ x ∈ W.history id, x.records.run.id = r := by
  have hpresent := hasTask_of_names hcarries
  refine ⟨hpresent, ?_⟩
  cases hlast : (W.history id).getLast? with
  | none =>
    have hdisk := hW.disk id
    unfold OnDisk at hdisk
    rw [hlast] at hdisk
    exact absurd (by rw [hdisk]; rfl) hpresent
  | some x =>
    have hx := List.mem_of_getLast? hlast
    have hnames := Store.names_of_named ((h.content id x hx).hasTask hpresent) r.text
    have hsame := (hcarries.symm.trans hnames).symm
    have htext : x.records.run.id.text = r.text := by simpa using hsame
    exact ⟨x, hx, UUID.text_injective htext⟩

omit [DecidableEq ι] [DecidableEq θ] in
/-- A capsule with a history is used by its run. -/
theorem World.Uses.run (h : W.Tasks) (hW : W.Inv thread safe secretSafe) {id : String}
    {r : UUID} (huses : W.Uses id r) :
    (∃ x ∈ W.history id, x.records.run.id = r) ∨
      W.history id = [] ∧ ∃ i a, W.held i r = some a ∧ a.isNew = true ∧ a.capsuleId = id := by
  rcases huses with hrun | ⟨i, a, ha, rfl⟩ | hcarries
  · exact .inl hrun
  · have hr := World.run_of_held ha
    rcases hW.held i r a ha with hcurrent | ⟨hnew, -, -, hempty | hsection⟩
    · obtain ⟨y, hy, hay⟩ := hcurrent.run
      exact .inl ⟨y, hy, hay.symm.trans hr⟩
    · exact .inr ⟨hempty, i, a, ha, hnew, rfl⟩
    · obtain ⟨s, b, hs, -, hid, hpurpose, hb, hab⟩ := hsection
      cases hlast : (W.history a.capsuleId).getLast? with
      | none => exact .inr ⟨List.getLast?_eq_none_iff.mp hlast, i, a, ha, hnew, rfl⟩
      | some x =>
        have hx := List.mem_of_getLast? hlast
        have hok := hW.sections _ s hs
        have hpending := hok.pending
        have hanswer := hok.answer b hb
        rw [hid] at hpending hanswer
        rcases hanswer with hcheck | ⟨hcurrent, -⟩
        · rw [hpurpose] at hcheck
          cases hcheck
        · obtain ⟨y, hy, hby⟩ := hcurrent.run
          have hxy := (hpending.chain (hW.chain a.capsuleId)).run (List.mem_append_left _ hx) hy
          exact .inl ⟨x, hx, by rw [hxy, ← hby, hab, hr]⟩
  · exact .inl (hcarries.run h hW).2

/-- What holds in every state of a run of sole creations. -/
structure World.Identified (thread : ι → θ) (safe : String → Bool)
    (secretSafe : StateDocument → Bool) (W : World ι θ) : Prop where
  inv : W.Inv thread safe secretSafe
  tasks : W.Tasks
  bound : ∀ id id' r, W.Bound id r → W.Bound id' r → id = id'

/-- A creation that found no capsule of its run, and no other session with it, binds it alone. -/
theorem World.Identified.step (h : W.Identified thread safe secretSafe)
    (hstep : World.Step thread safe secretSafe W W') (hsole : W.Sole W') :
    W'.Identified thread safe secretSafe := by
  obtain ⟨htasks, hbound⟩ := h.tasks.step h.inv hstep
  refine ⟨h.inv.step hstep, htasks, ?_⟩
  rcases hbound with hbound | ⟨i, r, id, hcreated, hnone, hbound⟩
  · exact fun id id' r hid hid' => h.bound id id' r (hbound id r hid) (hbound id' r hid')
  · have hfree : ∀ id', ¬ W.Bound id' r := by
      rintro id' (⟨hpresent, x, hx, hrun⟩ | ⟨j, a, ha, hnew, -⟩)
      · have hnames := (h.tasks.content id' x hx).hasTask hpresent
        rw [hrun] at hnames
        cases hget : W.store.capsules.get? id' with
        | none =>
          unfold World.Present Store.capsule at hpresent
          rw [hget] at hpresent
          exact hpresent rfl
        | some d =>
          have hkey := Table.key_of_get? hget
          have hfalse := Store.names_of_capsuleId_eq_none hnone d (Table.mem_of_get? hget)
          have hcapsule : W.store.capsule id' = d.2 := by simp [Store.capsule, hget]
          rw [hcapsule, ← hkey, hfalse] at hnames
          cases hnames
      · rw [hsole i r hcreated j a ha] at hnew
        cases hnew
    intro id₁ id₂ q hid₁ hid₂
    rcases hbound id₁ q hid₁ with hold₁ | ⟨rfl, rfl⟩
    · rcases hbound id₂ q hid₂ with hold₂ | ⟨rfl, rfl⟩
      · exact h.bound id₁ id₂ q hold₁ hold₂
      · exact absurd hold₁ (hfree id₁)
    · rcases hbound id₂ q hid₂ with hold₂ | ⟨rfl, -⟩
      · exact absurd hold₂ (hfree id₂)
      · rfl

theorem World.identified_of_run
    (hrun : ReflTransGen (fun W W' => World.Step thread safe secretSafe W W' ∧ W.Sole W')
      (World.initial ι θ) W) : W.Identified thread safe secretSafe := by
  have hkeeps : Preserved
      (fun W W' : World ι θ => World.Step thread safe secretSafe W W' ∧ W.Sole W')
      (World.Identified thread safe secretSafe) := fun _ _ h hstep => h.step hstep.1 hstep.2
  refine hkeeps.run hrun ⟨World.inv_initial, World.tasks_initial, ?_⟩
  rintro id id' r (⟨hpresent, -⟩ | ⟨i, a, ha, -⟩)
  · exact absurd rfl hpresent
  · cases ha

omit [DecidableEq ι] [DecidableEq θ] in
/-- A run that a capsule carries is not created again. -/
theorem World.Carries.refused (h : W.Tasks) (hW : W.Inv thread safe secretSafe) {id : String}
    {run : Run} (hcarries : W.Carries id run.id) (safeRequest : String → Bool) (i : ι) :
    checkCreate safeRequest W.store (W.members i).session run =
      .error (.conflict "Run identity already exists") := by
  have hnames : ∀ d ∈ W.store.capsules,
      ∃ b, Store.names d.1 d.2 run.id.text = .ok b := by
    intro d hd
    have hcapsule := Store.capsule_of_mem hd
    cases hlast : (W.history d.1).getLast? with
    | none =>
      have hdisk := hW.disk d.1
      unfold OnDisk at hdisk
      rw [hlast, hcapsule] at hdisk
      have hdisk : d.2 = .empty := hdisk
      exact ⟨false, Store.names_of_absent (by rw [hdisk]; rfl)⟩
    | some x =>
      rcases h.content d.1 x (List.mem_of_getLast? hlast) with hnone | hnamed
      · rw [hcapsule] at hnone
        exact ⟨false, Store.names_of_absent hnone⟩
      · rw [hcapsule] at hnamed
        exact ⟨_, Store.names_of_named hnamed _⟩
  unfold checkCreate
  split
  · rfl
  · obtain ⟨entries, hentries⟩ := Store.indexEntries_eq_ok hnames
    rw [Store.capsuleId_eq_of_names hnames hentries]
    cases hid : (entries.findSome? (W.store.leads run.id.text)).or
        (W.store.bearer run.id.text) with
    | some id => rfl
    | none =>
      have hlookup : W.store.capsuleId run.id = .ok none := by
        rw [Store.capsuleId_eq_of_names hnames hentries, hid]
      obtain ⟨hpresent, -⟩ := hcarries.run h hW
      cases hget : W.store.capsules.get? id with
      | none =>
        unfold World.Present Store.capsule at hpresent
        rw [hget] at hpresent
        exact absurd rfl hpresent
      | some d =>
        have hfalse := Store.names_of_capsuleId_eq_none hlookup d (Table.mem_of_get? hget)
        have hcapsule : W.store.capsule id = d.2 := by simp [Store.capsule, hget]
        unfold World.Carries at hcarries
        rw [hcapsule, ← Table.key_of_get? hget, hfalse] at hcarries
        cases hcarries

/-- RUN IDENTITIES ARE UNIQUE where no run is created while another session holds a new
aggregate of it: one capsule at most carries a run, a capsule is used by one run at most, and
a run that a capsule carries is not created again. -/
theorem run_identity
    (hrun : ReflTransGen (fun W W' => World.Step thread safe secretSafe W W' ∧ W.Sole W')
      (World.initial ι θ) W) :
    (∀ r id id', W.Carries id r → W.Carries id' r → id = id') ∧
    (∀ id r r', W.Uses id r → W.Uses id r' → r = r') ∧
    ∀ id run, W.Carries id run.id → ∀ safeRequest i,
      checkCreate safeRequest W.store (W.members i).session run =
        .error (.conflict "Run identity already exists") := by
  obtain ⟨hW, htasks, hbound⟩ := World.identified_of_run hrun
  refine ⟨?_, ?_, fun id run hcarries => hcarries.refused htasks hW⟩
  · intro r id id' hid hid'
    exact hbound id id' r (.inl (hid.run htasks hW)) (.inl (hid'.run htasks hW))
  · intro id r r' hr hr'
    rcases hr.run htasks hW with ⟨x, hx, hxr⟩ | ⟨hempty, i, a, ha, hnew, hid⟩
    · rcases hr'.run htasks hW with ⟨y, hy, hyr⟩ | ⟨hempty, -⟩
      · rw [← hxr, ← hyr]
        exact (hW.chain id).run hx hy
      · rw [hempty] at hx
        cases hx
    · rcases hr'.run htasks hW with ⟨y, hy, -⟩ | ⟨-, j, b, hb, hbnew, hid'⟩
      · rw [hempty] at hy
        cases hy
      · exact (hW.fresh i j r r' a b ha hb hnew hbnew (hid.trans hid'.symm)).2

/-! ## Two sessions that create one run -/

omit [DecidableEq ι] [DecidableEq θ] in
theorem World.sole_of_held (h : ∀ i r a, W'.held i r = some a → a.isNew = true →
    W.held i r ≠ none) : W.Sole W' := by
  rintro i r ⟨hnone, a, ha, hnew⟩
  exact absurd hnone (h i r a ha hnew)

/-- A section that is under way can be carried to its end. -/
theorem World.drain {t : θ} {s : Section ι} (hs : W.sections t = some s) (hne : s.pending ≠ []) :
    ∃ W', ReflTransGen (fun W W' => World.Step thread safe secretSafe W W' ∧ W.Sole W') W W' ∧
      W'.store.capsule s.capsule = lastDisk (W.store.capsule s.capsule) s.pending ∧
      (∀ id, id ≠ s.capsule → W'.store.capsule id = W.store.capsule id) ∧
      W'.members = W.members ∧ W'.projectLock = W.projectLock ∧
      ∀ t', t' ≠ t → W'.sections t' = W.sections t' := by
  obtain ⟨owner, capsule, purpose, pending, value⟩ := s
  dsimp only at hne ⊢
  induction pending generalizing W with
  | nil => exact absurd rfl hne
  | cons w rest ih =>
    have htick : World.Step thread safe secretSafe W _ ∧ W.Sole _ :=
      ⟨.tick t hs rfl, World.sole_of_held fun i r a ha _ hnone => by
        have ha : W.held i r = some a := ha
        rw [hnone] at ha
        cases ha⟩
    cases rest with
    | nil =>
      exact ⟨_, .single htick, Store.capsule_putCapsule .., fun id hid =>
        Store.capsule_putCapsule_ne _ _ hid, rfl, rfl, fun t' ht => Function.update_of_ne ht ..⟩
    | cons v rest =>
      have hself : (W.tick t ⟨owner, capsule, purpose, w :: v :: rest, value⟩ w
          (v :: rest)).sections t = some ⟨owner, capsule, purpose, v :: rest, value⟩ := by
        simp [World.tick]
      obtain ⟨W', hrun, hcapsule, hother, hmembers, hlock, hsections⟩ := ih hself (by simp)
      refine ⟨W', .head htick hrun, hcapsule.trans ?_, fun id hid => ?_, hmembers, hlock,
        fun t' ht => ?_⟩
      · simp [lastDisk]
      · rw [hother id hid]
        exact Store.capsule_putCapsule_ne _ _ hid
      · rw [hsections t' ht]
        exact Function.update_of_ne ht ..

end Steps

/-- The worlds after the first and the second creation of one run. -/
def sampleRival : World Nat Nat :=
  { (World.initial Nat Nat).setMember 0
      { session := { capsules := Table.empty.put (newAggregate "ORQ-20260101-0001" sampleNewRun) }
        locks := ["ORQ-20260101-0001"] } with
    store := Store.putCapsule "ORQ-20260101-0001" .empty {} }

def sampleRivals : World Nat Nat :=
  { sampleRival.setMember 1
      { session := { capsules := Table.empty.put (newAggregate "ORQ-20260101-0002" sampleNewRun) }
        locks := ["ORQ-20260101-0002"] } with
    store := sampleRival.store.putCapsule "ORQ-20260101-0002" .empty }

theorem sampleRival_created :
    World.Step id (fun _ => true) (fun _ => true) (World.initial Nat Nat) sampleRival :=
  .create 0 sampleNewRun "ORQ-20260101-0001" ⟨rfl, by simp [World.initial]⟩ rfl rfl rfl rfl
    (by simp [World.Free, World.initial])

theorem sampleRivals_created :
    World.Step id (fun _ => true) (fun _ => true) sampleRival sampleRivals := by
  refine .create 1 sampleNewRun "ORQ-20260101-0002" ⟨rfl, ?_⟩ rfl rfl rfl rfl ?_
  · simp [sampleRival, World.initial, World.setMember]
  · intro j hj
    by_cases h : j = 0
    · subst h
      simp [sampleRival, World.setMember]
    · simp [sampleRival, World.initial, World.setMember, h]

theorem sampleRival_names :
    Store.names "ORQ-20260101-0001" (lastDisk .empty (commitWrites (fun _ => true)
      (newAggregate "ORQ-20260101-0001" sampleNewRun) .empty)) (UUID.uuid4 1).text =
        .ok true := rfl

theorem sampleRivals_names :
    Store.names "ORQ-20260101-0002" (lastDisk .empty (commitWrites (fun _ => true)
      (newAggregate "ORQ-20260101-0002" sampleNewRun) .empty)) (UUID.uuid4 1).text =
        .ok true := rfl

section Commits

variable {W : World Nat Nat} {i : Nat} {a : Aggregate} {runId : UUID}

/-- An idle session of a thread of its own commits a changed aggregate it holds. -/
theorem World.commit_run (hidle : W.Idle id i)
    (hcached : (W.members i).session.capsules.get? runId = some a) (hdirty : a.dirty = true)
    (hfree : W.Free id i a.capsuleId) :
    ∃ W', ReflTransGen (fun W W' =>
        World.Step id (fun _ => true) (fun _ => true) W W' ∧ W.Sole W') W W' ∧
      W'.store.capsule a.capsuleId = lastDisk (W.store.capsule a.capsuleId)
        (commitWrites (fun _ => true) a (W.store.capsule a.capsuleId)) ∧
      (∀ name, name ≠ a.capsuleId → W'.store.capsule name = W.store.capsule name) ∧
      (∀ j, j ≠ i → W'.members j = W.members j) ∧
      (W'.members i).locks = a.capsuleId :: (W.members i).locks ∧
      W'.projectLock = W.projectLock ∧ ∀ j, j ≠ i → W'.sections j = W.sections j := by
  have hpending : commitWrites (fun _ => true) a (W.store.capsule a.capsuleId) ≠ [] := by
    intro hnil
    have hdisks := @commitWrites_disks (fun _ => true) _ (W.store.capsule a.capsuleId) hdirty
    rw [hnil, map_writesOf] at hdisks
    simp at hdisks
  have hcommit : World.Step id (fun _ => true) (fun _ => true) W _ :=
    .commit i hidle hcached hdirty hfree
  have hsole : ∀ s : Section Nat, W.Sole (W.enter id s) := by
    refine fun s => World.sole_of_held fun j r b hb _ hnone => ?_
    rw [World.held_enter, hnone] at hb
    cases hb
  obtain ⟨W', hrun, hcapsule, hother, hmembers, hlock, hsections⟩ :=
    World.drain (World.section_enter W
      { owner := i
        capsule := a.capsuleId
        purpose := .commit
        pending := commitWrites (fun _ => true) a (W.store.capsule a.capsuleId)
        value := ((commitCapsule (fun _ => true) a).run
          (W.store.capsule a.capsuleId)).value }) hpending
  refine ⟨W', .head ⟨hcommit, hsole _⟩ hrun, hcapsule, hother, fun j hj => ?_, ?_, hlock,
    fun j hj => ?_⟩
  · rw [hmembers]
    simp [World.enter, World.setMember, World.setSection, hj]
  · rw [hmembers]
    simp [World.enter, World.setMember, World.setSection]
  · rw [hsections j hj]
    simp [World.enter, World.setMember, World.setSection, hj]

/-- A session that creates a run alone commits it: no other capsule carries it, and nobody
creates it again. -/
theorem sampleRival_identity : ∃ W : World Nat Nat,
    W.Carries "ORQ-20260101-0001" (.uuid4 1) ∧
      (∀ name, W.Carries name (.uuid4 1) → "ORQ-20260101-0001" = name) ∧
      ∀ i, checkCreate (fun _ => true) W.store (W.members i).session sampleNewRun =
        .error (.conflict "Run identity already exists") := by
  obtain ⟨W, hrun, hcapsule, -⟩ :=
    @World.commit_run sampleRival 0 (newAggregate "ORQ-20260101-0001" sampleNewRun) (.uuid4 1)
      ⟨rfl, by simp [sampleRival, World.initial, World.setMember]⟩ rfl rfl (by
        intro j hj
        have hj : j ≠ 0 := hj
        simp [sampleRival, World.initial, World.setMember, hj])
  have hsole : (World.initial Nat Nat).Sole sampleRival := by
    intro i r _ j b hb
    cases hb
  have hcarries : W.Carries "ORQ-20260101-0001" (.uuid4 1) :=
    (congrArg (Store.names _ · _) hcapsule).trans sampleRival_names
  have hidentity := run_identity (.head ⟨sampleRival_created, hsole⟩ hrun)
  exact ⟨W, hcarries, fun name => hidentity.1 _ _ name hcarries,
    hidentity.2.2 _ sampleNewRun hcarries _⟩

/-- Both rivals commit: two capsules carry one run. -/
theorem sampleRivals_carry :
    ¬ ∀ W : World Nat Nat,
      ReflTransGen (World.Step id (fun _ => true) (fun _ => true)) (World.initial Nat Nat) W →
        ∀ r name name', W.Carries name r → W.Carries name' r → name = name' := by
  intro hclaim
  -- The first commits, and then the second.
  obtain ⟨W, hrun, hcapsule, hother, hmembers, hlocks, hlock, hsections⟩ :=
    @World.commit_run sampleRivals 0 (newAggregate "ORQ-20260101-0001" sampleNewRun) (.uuid4 1)
      ⟨rfl, by simp [sampleRivals, sampleRival, World.initial, World.setMember]⟩ rfl rfl (by
        intro j hj
        have hj : j ≠ 0 := hj
        by_cases h : j = 1
        · subst h
          simp [sampleRivals, World.setMember, newAggregate]
        · simp [sampleRivals, sampleRival, World.initial, World.setMember, h, hj])
  have hsecond : W.members 1 = sampleRivals.members 1 := hmembers 1 (by simp)
  have hfirst : (W.members 0).locks = ["ORQ-20260101-0001", "ORQ-20260101-0001"] := hlocks
  obtain ⟨W', hrun', hcapsule', hother', -⟩ :=
    @World.commit_run W 1 (newAggregate "ORQ-20260101-0002" sampleNewRun) (.uuid4 1)
      ⟨by rw [id, hsections 1 (by simp)]; rfl, by
        rw [hlock]
        simp [sampleRivals, sampleRival, World.initial, World.setMember]⟩
      (by rw [hsecond]; rfl) rfl (by
        intro j hj
        have hj : j ≠ 1 := hj
        by_cases h : j = 0
        · subst h
          rw [hfirst]
          simp [newAggregate]
        · rw [hmembers j h]
          simp [sampleRivals, sampleRival, World.initial, World.setMember, h, hj])
  have hboth : ReflTransGen (World.Step id (fun _ => true) (fun _ => true))
      (World.initial Nat Nat) W' :=
    (((ReflTransGen.single sampleRival_created).tail sampleRivals_created).trans
      (hrun.lift id fun _ _ h => h.1)).trans (hrun'.lift id fun _ _ h => h.1)
  have hsame := hclaim W' hboth (.uuid4 1) "ORQ-20260101-0001" "ORQ-20260101-0002" ?_ ?_
  · exact absurd hsame (by decide)
  · unfold World.Carries
    rw [hother' _ (by decide)]
    exact (congrArg (Store.names _ · _) hcapsule).trans sampleRival_names
  · unfold World.Carries
    have hempty : W.store.capsule "ORQ-20260101-0002" = .empty := hother _ (by decide)
    have hlast : W'.store.capsule "ORQ-20260101-0002" = lastDisk .empty
        (commitWrites (fun _ => true) (newAggregate "ORQ-20260101-0002" sampleNewRun) .empty) := by
      rw [← hempty]
      exact hcapsule'
    rw [hlast]
    exact sampleRivals_names

end Commits

end Orqalis
