import Orqalis.Persistence.Histories

/-!
# What is saved is what is loaded

The life of a capsule: its run is created, changed through the repositories, committed, and
loaded again by fresh sessions, in any order and any number of times. Whatever came about in
a life, a load of what was committed answers it: the same mappings, the same events.
-/

namespace Orqalis

open Lib Lib.Crash Relation

section Lives

variable (safe : String → Bool) (secretSafe : StateDocument → Bool) (id : String) (run : Run)

/-- The directories and aggregates the life of a capsule comes to. -/
inductive Life : Capsule → Aggregate → Prop
  | create (hcursor : run.lastEventSequence = 0) : Life .empty (newAggregate id run)
  | stage {c : Capsule} {a : Aggregate} {records : Records} (h : Life c a)
      (hcall : Staging safe a.records records) : Life c { a with records, dirty := true }
  | commit {c : Capsule} {a b : Aggregate} (h : Life c a)
      (hvalue : ((commitCapsule secretSafe a).run c).value = .ok b) :
      Life ((commitCapsule secretSafe a).run c).disk b
  | load {c : Capsule} {a b : Aggregate} (h : Life c a)
      (hvalue : ((loadCapsule id run.id).run c).value = .ok b) :
      Life ((loadCapsule id run.id).run c).disk b

variable {safe secretSafe id run} {c : Capsule} {a b : Aggregate}

/-- Where a life has come to: the directory is empty or loads, the aggregate was come to by
repository calls on a settled one, and without changes it is what a load answers. -/
structure Lived (id : String) (run : Run) (safe : String → Bool) (c : Capsule) (a : Aggregate) :
    Prop where
  capsuleId : a.capsuleId = id
  runId : a.records.run.id = run.id
  derived : ∃ base, Settled c base ∧ Derived safe base a
  disk : c = .empty ∨ ∃ x, Loaded id run.id c x
  clean : a.dirty = false → ∃ x, Loaded id run.id c x ∧ x.Same a

/-- A commit of a changed aggregate that is carried out leaves a directory that loads it. -/
theorem Lived.commit (h : Lived id run safe c a) (hdirty : a.dirty = true)
    (hvalue : ((commitCapsule secretSafe a).run c).value = .ok b) :
    b = a.committed ∧
      ∃ x, Loaded id run.id ((commitCapsule secretSafe a).run c).disk x ∧ x.Same b := by
  obtain ⟨base, hsettled, hderived⟩ := h.derived
  have hstaged := hderived.staged hdirty
  have hend := (@commitCapsule_meets secretSafe _ _ _ _ hsettled hstaged).2
  cases hdocuments : a.documents secretSafe (a.generation + 1) with
  | error e =>
    rw [hdocuments] at hend
    rw [hend.1] at hvalue
    cases hvalue
  | ok documents =>
    rw [hdocuments] at hend
    obtain ⟨hok, hdisk⟩ := hend
    have hb : b = a.committed := Except.ok.inj (hvalue.symm.trans hok)
    obtain ⟨hsequenced, -, -, -, -⟩ := hstaged.of_settled hsettled
    obtain ⟨x, hload, hsame⟩ := @loadPath_finished _ _ _ c hdocuments hsequenced
    rw [h.capsuleId] at hload
    have hrun : x.records.run.id = run.id := by
      rw [hsame.records.run]
      exact h.runId
    exact ⟨hb, x, hdisk ▸ ⟨rfl, hload, hrun⟩, hb ▸ hsame⟩

/-- A directory whose load is the aggregate's. -/
theorem Lived.of_loaded {x : Aggregate} (h : Loaded id run.id c x) (hsame : x.Same a) :
    Lived id run safe c a where
  capsuleId := hsame.capsuleId.symm.trans (loadPath_committed h.load).2.1
  runId := (congrArg Run.id hsame.records.run).symm.trans h.run
  derived := ⟨a, h.settled.of_same hsame.symm, Derived.refl a⟩
  disk := .inr ⟨x, h⟩
  clean _ := ⟨x, h, hsame⟩

/-- Every life comes to such a place. -/
theorem Life.lived (h : Life safe secretSafe id run c a) : Lived id run safe c a := by
  induction h with
  | create hcursor =>
    exact ⟨rfl, rfl, ⟨_, settled_newAggregate hcursor, Derived.refl _⟩, .inl rfl,
      by simp [newAggregate]⟩
  | stage h hcall ih =>
    obtain ⟨base, hsettled, hderived⟩ := ih.derived
    exact ⟨ih.capsuleId, hcall.extends.id.trans ih.runId, ⟨base, hsettled, hderived.stage hcall⟩,
      ih.disk, by simp⟩
  | @commit c a b h hvalue ih =>
    cases hdirty : a.dirty with
    | true =>
      obtain ⟨-, x, hloaded, hsame⟩ := ih.commit hdirty hvalue
      exact .of_loaded hloaded hsame
    | false =>
      have hrun : (commitCapsule secretSafe a).run c = ⟨[], .ok a, c⟩ := by
        unfold commitCapsule
        rw [if_pos (by simp [hdirty])]
        rfl
      rw [hrun] at hvalue ⊢
      cases hvalue
      exact ih
  | @load c a b h hvalue ih =>
    rcases ih.disk with rfl | ⟨x, hloaded⟩
    · unfold loadCapsule at hvalue
      rw [Prog.run_bind, run_recover_of_marker rfl] at hvalue
      cases hvalue
    · rw [hloaded.run_load] at hvalue ⊢
      cases hvalue
      exact .of_loaded hloaded (.refl _)

/-- WHAT IS SAVED IS WHAT IS LOADED. A fresh session that loads a run after a commit finds
the aggregate that was committed: its records are the staged ones, every mapping with the
same keys and values, the events the same list. -/
theorem save_load (h : Life safe secretSafe id run c a)
    (hvalue : ((commitCapsule secretSafe a).run c).value = .ok b) :
    ∃ x, ((loadCapsule id run.id).run ((commitCapsule secretSafe a).run c).disk).value = .ok x ∧
      x.Same b ∧ x.records.Same a.records ∧ x.records.events = a.records.events := by
  have hlived := h.lived
  obtain ⟨x, hloaded, hsame⟩ : ∃ x,
      Loaded id run.id ((commitCapsule secretSafe a).run c).disk x ∧ x.Same b :=
    (Life.commit h hvalue).lived.clean (by
      cases hdirty : a.dirty with
      | true =>
        rw [(hlived.commit hdirty hvalue).1]
        rfl
      | false =>
        unfold commitCapsule at hvalue
        rw [if_pos (by simp [hdirty])] at hvalue
        cases hvalue
        exact hdirty)
  have hrecords : b.records = a.records := by
    cases hdirty : a.dirty with
    | true =>
      rw [(hlived.commit hdirty hvalue).1]
      rfl
    | false =>
      unfold commitCapsule at hvalue
      rw [if_pos (by simp [hdirty])] at hvalue
      cases hvalue
      rfl
  rw [hloaded.run_load]
  exact ⟨x, rfl, hsame, hrecords ▸ hsame.records, hrecords ▸ hsame.records.events⟩

/-- The sample's first commit reads back. -/
theorem sample_save_load :
    ∃ x, ((loadCapsule "ORQ-20260101-0001" (.uuid4 1)).run
        ((commitCapsule (fun _ => true) sampleNew).run .empty).disk).value = .ok x ∧
      x.Same sampleNew.committed ∧ x.records.Same sampleNew.records ∧
      x.records.events = sampleNew.records.events :=
  @save_load (fun _ => true) (fun _ => true) "ORQ-20260101-0001" sampleNewRun .empty sampleNew _
    (.stage (.create rfl) (@Staging.append _ _ _ sampleDraft
      ((newAggregate "ORQ-20260101-0001" sampleNewRun).records.eventOf sampleDraft) rfl)) rfl

end Lives

end Orqalis
