import Orqalis.Persistence.Concurrency

/-!
# What a directory holds

A directory holds an aggregate when a load of it answers that aggregate, now or after rolling
its marker forward. The programs of a section keep what a directory holds, write by write,
but for the marker of a commit, after which it holds what was staged.
-/

namespace Orqalis

open Lib Lib.Crash Lib.Outcome Relation

section Holding

variable (safe : String → Bool) (secretSafe : StateDocument → Bool)

/-- A directory from which a load answers `x`. -/
def Holds (c : Capsule) (x : Aggregate) : Prop :=
  (∃ y, Loaded x.capsuleId x.records.run.id c y ∧ y.Same x) ∨
    ∃ old base a documents, Settled old base ∧ Staged safe base a ∧
      a.documents secretSafe (a.generation + 1) = .ok documents ∧
      RolledForward old a documents c ∧ a.committed.Same x

/-- A directory and the aggregates that were committed to it: it holds the last of them, or
nothing at all. -/
def OnDisk (c : Capsule) (history : List Aggregate) : Prop :=
  match history.getLast? with
  | none => c = .empty
  | some x => Holds safe secretSafe c x

end Holding

section Programs

variable {safe : String → Bool} {secretSafe : StateDocument → Bool} {c : Capsule}
  {x y a base : Aggregate} {id : String} {runId : UUID}

/-- A recovery keeps what a directory holds and ends with it loaded. -/
theorem Holds.recover (h : Holds safe secretSafe c x) :
    Meets recover c (Holds safe secretSafe · x) (fun v t => v = .ok () ∧
      ∃ y, Loaded x.capsuleId x.records.run.id t y ∧ y.Same x) := by
  rcases h with ⟨y, hloaded, hsame⟩ | ⟨old, base, a, documents, hsettled, hstaged, hdocuments,
    hforward, hsame⟩
  · unfold Meets
    rw [run_recover_of_marker hloaded.marker]
    exact ⟨by simp, rfl, y, hloaded, hsame⟩
  · obtain ⟨-, hrun, hpersisted, -, -⟩ := hstaged.of_settled hsettled
    have hid : base.capsuleId = x.capsuleId := hstaged.capsuleId.symm.trans hsame.capsuleId
    have hrunId : base.records.run.id = x.records.run.id :=
      hrun.symm.trans (congrArg Run.id hsame.records.run)
    refine (rolledForward_recover hpersisted hforward).mono ?_ ?_
    · intro t ht
      exact .inr ⟨old, base, a, documents, hsettled, hstaged, hdocuments, ht, hsame⟩
    · rintro v t ⟨hv, rfl⟩
      obtain ⟨y, -, -, hloaded, hy⟩ := hforward.load hsettled hstaged hdocuments
      exact ⟨hv, y, hid ▸ hrunId ▸ hloaded, hy.trans hsame⟩

/-- A loaded directory holds its aggregate. -/
theorem Loaded.holds (h : Loaded x.capsuleId x.records.run.id c y) (hsame : y.Same x) :
    Holds safe secretSafe c x := .inl ⟨y, h, hsame⟩

/-- A settled aggregate stays settled as the same mapping. -/
theorem Settled.of_same (h : Settled c y) (hsame : base.Same y) : Settled c base where
  marker := h.marker
  sequenced := by
    have hrun : base.records.run = y.records.run := hsame.records.run
    have hevents : base.records.events = y.records.events := hsame.records.events
    exact ⟨by rw [hevents, hrun]; exact h.sequenced.own,
      by rw [hevents]; exact h.sequenced.numbered,
      by rw [hevents, hrun]; exact h.sequenced.cursor⟩
  persisted := by rw [hsame.persisted, hsame.records.events]; exact h.persisted
  log := by rw [hsame.records.events]; exact h.log
  generation := by rw [hsame.isNew, hsame.generation]; exact h.generation

/-- Reading the generation of a directory answers that of what it holds. -/
theorem Holds.diskGeneration (h : Holds safe secretSafe c x) :
    Meets diskGeneration c (Holds safe secretSafe · x) (fun v t => v = .ok (x.generation : Int) ∧
      ∃ y, Loaded x.capsuleId x.records.run.id t y ∧ y.Same x) := by
  refine meets_bind (h.recover.mono (fun _ h => h) ?_)
  rintro v t ⟨rfl, y, hloaded, hsame⟩
  obtain ⟨-, -, -, -, -, -, ⟨d, hstate, hgeneration⟩, -⟩ := loadPath_committed hloaded.load
  refine meets_bind (meets_read ?_)
  rw [hstate]
  simp only [hgeneration]
  exact meets_pure ⟨by rw [hsame.generation], y, hloaded, hsame⟩

/-- The check of a generation passes exactly the current one. -/
theorem Holds.checkGeneration (h : Holds safe secretSafe c x) (hold : a.isNew = false) :
    Meets a.checkGeneration c (Holds safe secretSafe · x) (fun v t =>
      v = (if x.generation = a.generation then .ok ()
        else .error (.conflict "Task Capsule changed concurrently; retry")) ∧
      ∃ y, Loaded x.capsuleId x.records.run.id t y ∧ y.Same x) := by
  unfold Aggregate.checkGeneration
  rw [if_neg (by simp [hold])]
  refine meets_bind (h.diskGeneration.mono (fun _ h => h) ?_)
  rintro v t ⟨rfl, hend⟩
  dsimp only
  by_cases hgeneration : x.generation = a.generation
  · rw [if_neg (by simpa using hgeneration), if_pos hgeneration]
    exact meets_pure ⟨rfl, hend⟩
  · rw [if_pos (by simpa using hgeneration), if_neg hgeneration]
    exact meets_fail ⟨rfl, hend⟩

/-- So does the comparison of a load for update. -/
theorem Holds.checkCached (h : Holds safe secretSafe c x) :
    Meets (checkCached a) c (Holds safe secretSafe · x) (fun v t =>
      v = (if x.generation = a.generation then .ok a
        else .error (.conflict "Task Capsule changed concurrently; retry")) ∧
      Holds safe secretSafe t x) := by
  refine meets_bind (h.diskGeneration.mono (fun _ h => h) ?_)
  rintro v t ⟨rfl, y, hloaded, hsame⟩
  dsimp only
  by_cases hgeneration : x.generation = a.generation
  · rw [if_neg (by simpa using hgeneration), if_pos hgeneration]
    exact meets_pure ⟨rfl, hloaded.holds hsame⟩
  · rw [if_pos (by simpa using hgeneration), if_neg hgeneration]
    exact meets_fail ⟨rfl, hloaded.holds hsame⟩

/-- A load answers what the directory holds. -/
theorem Holds.load (h : Holds safe secretSafe c x) :
    Meets (loadCapsule x.capsuleId runId) c (Holds safe secretSafe · x) (fun v t =>
      Holds safe secretSafe t x ∧
        match v with
        | .ok y => y.Same x ∧ x.records.run.id = runId
        | .error _ => x.records.run.id ≠ runId) := by
  refine meets_bind (h.recover.mono (fun _ h => h) ?_)
  rintro v t ⟨rfl, y, hloaded, hsame⟩
  refine meets_bind (meets_read ?_)
  refine meets_bind ?_
  rw [hloaded.load]
  refine meets_pure ?_
  have hrun : y.records.run.id = x.records.run.id := congrArg Run.id hsame.records.run
  show Meets (if y.records.run.id ≠ runId then _ else _) t _ _
  rw [hrun]
  split
  · next hne => exact meets_fail ⟨hloaded.holds hsame, hne⟩
  · next heq => exact meets_pure ⟨hloaded.holds hsame, hsame, not_not.mp heq⟩

/-- With the marker of a staged aggregate in place, the directory holds it, and so it does
through every write that carries the marker out. -/
theorem Settled.marked {documents : Documents} (hsettled : Settled c base)
    (hstaged : Staged safe base a)
    (hdocuments : a.documents secretSafe (a.generation + 1) = .ok documents) :
    Holds safe secretSafe (marked a documents c) a.committed ∧
      Meets Orqalis.recover (marked a documents c) (Holds safe secretSafe · a.committed)
        (fun v t => v = .ok () ∧ Holds safe secretSafe t a.committed) := by
  obtain ⟨-, -, hpersisted, -, -⟩ := hstaged.of_settled hsettled
  have hinterrupted : Interrupted c a documents (Orqalis.marked a documents c) :=
    interrupted_putMarker hsettled hstaged
  have hholds : ∀ t, RolledForward c a documents t → Holds safe secretSafe t a.committed :=
    fun t ht => .inr ⟨c, base, a, documents, hsettled, hstaged, hdocuments, ht, .refl _⟩
  refine ⟨hholds _ (.inl hinterrupted), ?_⟩
  refine (recover_interrupted hpersisted hinterrupted).mono (fun t ht => hholds t ht) ?_
  rintro v t ⟨hv, rfl⟩
  exact ⟨hv, hholds _ (.inr rfl)⟩

end Programs

end Orqalis
