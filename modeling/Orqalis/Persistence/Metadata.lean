import Orqalis.Persistence.Interleaving

/-!
# The metadata of a capsule

A run is found by the metadata of its capsule, the last thing a commit leaves visible of it.
No program over a capsule takes metadata away, and what is in place names the run of what
the directory holds; the commit of a capsule that is carried out leaves it in place.
-/

namespace Orqalis

open Lib Lib.Crash Lib.Outcome

/-- The metadata is in place. -/
def Capsule.HasTask (c : Capsule) : Prop := c.files (.document .task) ≠ none

/-- The metadata, if any, is the capsule's own and names the run. -/
def Tasked (id : String) (runId : UUID) (c : Capsule) : Prop :=
  c.files (.document .task) = none ∨ Store.names id c runId.text = .ok true

section Grows

/-! ## No write takes metadata away -/

theorem grows_replaceDocument (d : Target × StoredDocument) :
    Grows Capsule.HasTask (replaceDocument d) := by
  unfold replaceDocument
  refine grows_bind (grows_lift _) fun target => grows_bind (grows_lift _) fun content =>
    grows_write fun c hc => ?_
  unfold Capsule.HasTask Capsule.putFile
  by_cases htarget : target = .document .task
  · simp [htarget]
  · dsimp only
    rw [Function.update_of_ne (Ne.symm htarget)]
    exact hc

theorem grows_recoveredRecords (base : Nat) : Grows Capsule.HasTask (recoveredRecords base) := by
  unfold recoveredRecords
  refine grows_bind (grows_read _) fun existing => ?_
  cases existing with
  | ok existing => exact grows_pure _
  | error e =>
    refine grows_bind (grows_read _) fun existing => ?_
    cases existing with
    | ok existing =>
      exact grows_bind (grows_write fun c hc => hc) fun _ => grows_pure _
    | error e => exact grows_fail _

theorem grows_appendTail (existing : List EventRecord) (position : Nat)
    (tail : List (Option EventRecord)) :
    Grows Capsule.HasTask (appendTail existing position tail) := by
  induction tail generalizing existing position with
  | nil => exact grows_pure _
  | cons value rest ih =>
    cases value with
    | none => exact grows_fail _
    | some value =>
      unfold appendTail
      split
      · split
        · exact grows_fail _
        · exact ih _ _
      · split
        · exact grows_fail _
        · refine grows_bind (grows_step fun c => ?_) fun _ => ih _ _
          simp only [Capsule.appendCuts, List.cons_append, List.nil_append, List.pairwise_cons]
          simp [Capsule.HasTask, Capsule.putLog, Capsule.appendLog]

theorem grows_recoverLog (base : Nat) (tail : List (Option EventRecord)) :
    Grows Capsule.HasTask (recoverLog base tail) := by
  unfold recoverLog
  refine grows_bind (grows_read _) fun log => grows_before (grows_write fun c hc => hc)
    (grows_bind (grows_recoveredRecords base) fun existing => ?_)
  split
  · exact grows_fail _
  · exact grows_appendTail _ _ _

theorem grows_applyTransaction (t : Transaction) :
    Grows Capsule.HasTask (applyTransaction t) := by
  unfold applyTransaction
  split
  · exact grows_fail _
  · split
    · exact grows_fail _
    · exact grows_fail _
    · refine grows_bind (grows_forM grows_replaceDocument _) fun _ => ?_
      split
      · split
        · exact grows_fail _
        · exact grows_bind (grows_recoverLog _ _) fun _ => grows_write fun c hc => hc
      · exact grows_fail _

theorem grows_recover : Grows Capsule.HasTask recover := by
  unfold recover
  refine grows_bind (grows_read _) fun marker => ?_
  cases marker with
  | none => exact grows_pure _
  | some marker =>
    cases marker with
    | malformed => exact grows_fail _
    | transaction t => exact grows_applyTransaction t

theorem grows_loadCapsule (id : String) (runId : UUID) :
    Grows Capsule.HasTask (loadCapsule id runId) := by
  unfold loadCapsule
  refine grows_bind grows_recover fun _ => grows_bind (grows_read _) fun loaded =>
    grows_bind (grows_lift _) fun a => ?_
  split
  · exact grows_fail _
  · exact grows_pure _

theorem grows_diskGeneration : Grows Capsule.HasTask diskGeneration := by
  unfold diskGeneration
  refine grows_bind grows_recover fun _ => grows_bind (grows_read _) fun d => ?_
  split
  · exact grows_fail _
  · split
    · exact grows_pure _
    · exact grows_fail _

theorem grows_checkCached (a : Aggregate) : Grows Capsule.HasTask (checkCached a) := by
  unfold checkCached
  refine grows_bind grows_diskGeneration fun current => ?_
  split
  · exact grows_fail _
  · exact grows_pure _

theorem grows_checkGeneration (a : Aggregate) : Grows Capsule.HasTask a.checkGeneration := by
  unfold Aggregate.checkGeneration
  split
  · exact grows_pure _
  · refine grows_bind grows_diskGeneration fun current => ?_
    split
    · exact grows_fail _
    · exact grows_pure _

theorem grows_commitCapsule (secretSafe : StateDocument → Bool) (a : Aggregate) :
    Grows Capsule.HasTask (commitCapsule secretSafe a) := by
  unfold commitCapsule
  split
  · exact grows_pure _
  · exact grows_bind (grows_checkGeneration a) fun _ => grows_bind (grows_lift _) fun documents =>
      grows_bind (grows_write fun c hc => hc) fun _ => grows_bind grows_recover fun _ =>
        grows_pure _

end Grows

/-! ## What is in place names the run -/

section Tasked

variable {id : String} {runId : UUID} {c : Capsule} {a x base : Aggregate}
  {safe : String → Bool} {secretSafe : StateDocument → Bool} {P : Capsule → Prop}

theorem Tasked.hasTask (h : Tasked id runId c) (hc : c.HasTask) :
    Store.names id c runId.text = .ok true := h.resolve_left hc

theorem hasTask_of_names (h : Store.names id c runId.text = .ok true) : c.HasTask := by
  intro hnone
  rw [Store.names_of_absent hnone] at h
  cases h

/-- The metadata of an aggregate of the run. -/
theorem tasked_of_task (hid : a.capsuleId = id) (hrun : a.records.run.id = runId)
    (h : c.files (.document .task) = some (.task a.taskDocument)) : Tasked id runId c := by
  right
  rw [← hid, ← hrun, Store.names_of_task h]
  simp

/-- Metadata that names the run of what a directory holds does so through its recovery. -/
theorem Holds.tasked (h : Holds safe secretSafe c x)
    (hc : Tasked x.capsuleId x.records.run.id c) :
    Meets Orqalis.recover c (Tasked x.capsuleId x.records.run.id)
      (fun _ t => Tasked x.capsuleId x.records.run.id t) := by
  rcases h with ⟨y, hloaded, -⟩ | ⟨old, base, a, documents, hsettled, hstaged, hdocuments,
    hforward, hsame⟩
  · unfold Meets
    rw [run_recover_of_marker hloaded.marker]
    exact ⟨by simp, hc⟩
  · obtain ⟨-, -, hpersisted, -, -⟩ := hstaged.of_settled hsettled
    have hid : a.capsuleId = x.capsuleId := hsame.capsuleId
    have hrun : a.records.run.id = x.records.run.id := congrArg Run.id hsame.records.run
    have hnew : (finished c a documents).files (.document .task) = some (.task a.taskDocument) :=
      files_finished (Aggregate.get?_task_documents hdocuments)
    rcases hforward with hforward | rfl
    · -- From where it stands, each file is the one there or the committed one.
      have hself : Interrupted c a documents c :=
        ⟨hforward.marker, rfl, fun _ => .inl rfl, hforward.log⟩
      refine (recover_interrupted hpersisted hself).mono ?_ ?_
      · rintro t (ht | rfl)
        · rcases ht.each (.document .task) with hkeep | hcommitted
          · unfold Tasked Store.names Store.taskDocument at hc ⊢
            rw [hkeep]
            exact hc
          · exact tasked_of_task hid hrun (hcommitted.trans hnew)
        · exact tasked_of_task hid hrun hnew
      · rintro v t ⟨-, rfl⟩
        exact tasked_of_task hid hrun hnew
    · unfold Meets
      rw [recover_finished]
      exact ⟨by simp, hc⟩

/-! What a recovery keeps, the programs that only read after it keep. -/

theorem meets_loadCapsule (h : Meets recover c P fun _ t => P t) :
    Meets (loadCapsule id runId) c P fun _ t => P t := by
  unfold loadCapsule
  refine meets_bind (h.mono (fun _ h => h) fun v t ht => ?_)
  cases v with
  | error e => exact ht
  | ok _ =>
    refine meets_bind (meets_read (meets_bind (meets_lift ?_)))
    cases Capsule.loadPath id t with
    | error e => exact ht
    | ok a =>
      dsimp only
      split
      · exact meets_fail ht
      · exact meets_pure ht

theorem meets_diskGeneration (h : Meets recover c P fun _ t => P t) :
    Meets diskGeneration c P fun _ t => P t := by
  unfold diskGeneration
  refine meets_bind (h.mono (fun _ h => h) fun v t ht => ?_)
  cases v with
  | error e => exact ht
  | ok _ =>
    refine meets_bind (meets_read ?_)
    dsimp only
    split
    · exact meets_fail ht
    · split
      · exact meets_pure ht
      · exact meets_fail ht

theorem meets_checkCached (h : Meets recover c P fun _ t => P t) :
    Meets (checkCached a) c P fun _ t => P t := by
  unfold checkCached
  refine meets_bind ((meets_diskGeneration h).mono (fun _ h => h) fun v t ht => ?_)
  cases v with
  | error e => exact ht
  | ok current =>
    dsimp only
    split
    · exact meets_fail ht
    · exact meets_pure ht

theorem meets_checkGeneration (h : Meets recover c P fun _ t => P t) (hc : P c) :
    Meets a.checkGeneration c P fun _ t => P t := by
  unfold Aggregate.checkGeneration
  split
  · exact meets_pure hc
  · refine meets_bind ((meets_diskGeneration h).mono (fun _ h => h) fun v t ht => ?_)
    cases v with
    | error e => exact ht
    | ok current =>
      dsimp only
      split
      · exact meets_fail ht
      · exact meets_pure ht

/-! ## The writes of a section -/

/-- The directory at the end of some writes. -/
def lastDisk (c : Capsule) (writes : List Write) : Capsule :=
  (c :: writes.map Write.disk).getLast (List.cons_ne_nil _ _)

theorem map_writesOf {α : Type} (ran : Ran Capsule Error α) :
    (writesOf ran).map Write.disk = ran.stops ++ [ran.disk] := by
  simp [writesOf, Function.comp_def]

theorem lastDisk_writesOf {α : Type} (ran : Ran Capsule Error α) :
    lastDisk c (writesOf ran) = ran.disk := by
  simp [lastDisk, map_writesOf]

theorem lastDisk_commitWrites (hdirty : a.dirty = true) :
    lastDisk c (commitWrites secretSafe a c) = ((commitCapsule secretSafe a).run c).disk := by
  unfold lastDisk
  simp [commitWrites_disks hdirty, map_writesOf]

theorem forall_writesOf {α : Type} {m : CapsuleProg α} (h : Meets m c P fun _ t => P t) :
    ∀ w ∈ writesOf (m.run c), P w.disk := by
  intro w hw
  have hmem : w.disk ∈ (m.run c).stops ++ [(m.run c).disk] := by
    rw [← map_writesOf]
    exact List.mem_map_of_mem hw
  rcases List.mem_append.mp hmem with h' | h'
  · exact h.1 _ h'
  · rw [List.mem_singleton.mp h']
    exact h.2

/-- The writes of a commit name the run, and a commit that is carried out leaves its
metadata in place. -/
theorem commit_tasked {history : List Aggregate}
    (hchecked : Checked safe secretSafe id history a c) (hdirty : a.dirty = true)
    (hid : a.capsuleId = id) (hrun : a.records.run.id = runId)
    (hrecover : Meets recover c (Tasked id runId) fun _ t => Tasked id runId t)
    (hc : Tasked id runId c) :
    (∀ w ∈ commitWrites secretSafe a c, Tasked id runId w.disk) ∧
      ∀ b, ((commitCapsule secretSafe a).run c).value = .ok b →
        ((commitCapsule secretSafe a).run c).disk.HasTask := by
  obtain ⟨hstops, hend⟩ := meets_checkGeneration (a := a) hrecover hc
  obtain ⟨-, -, hpassed⟩ := hchecked
  unfold commitWrites commitCapsule
  rw [if_neg (by simp [hdirty]), Prog.run_bind]
  cases hcheck : a.checkGeneration.run c with
  | mk stops value disk =>
    rw [hcheck] at hstops hend hpassed
    cases value with
    | error e =>
      refine ⟨fun w hw => ?_, fun b hb => by cases hb⟩
      rcases List.mem_append.mp hw with hw | hw
      · obtain ⟨d, hd, rfl⟩ := List.mem_map.mp hw
        exact hstops d hd
      · rw [List.mem_singleton.mp hw]
        exact hend
    | ok _ =>
      cases hdocuments : a.documents secretSafe (a.generation + 1) with
      | error e =>
        refine ⟨fun w hw => ?_, fun b hb => ?_⟩
        · rcases List.mem_append.mp hw with hw | hw
          · obtain ⟨d, hd, rfl⟩ := List.mem_map.mp hw
            exact hstops d hd
          · rw [List.mem_singleton.mp hw]
            exact hend
        · simp [Prog.andThen, Prog.run_bind, Prog.lift, Prog.fail] at hb
      | ok documents =>
        obtain ⟨base, -, hderived, hsettled⟩ := hpassed rfl
        have hstaged := hderived.staged hdirty
        obtain ⟨-, -, hpersisted, -, -⟩ := hstaged.of_settled hsettled
        obtain ⟨hmarked, -⟩ := hsettled.marked hstaged hdocuments
        have htasked : Tasked id runId (marked a documents disk) := hend
        have hforward : Meets recover (marked a documents disk) (Tasked id runId)
            (fun _ t => Tasked id runId t) := by
          subst hid hrun
          exact hmarked.tasked htasked
        have hinterrupted : Interrupted disk a documents (disk.putMarker
            (.transaction (a.transaction (a.generation + 1) documents))) :=
          interrupted_putMarker hsettled hstaged
        have hfinished := (recover_interrupted hpersisted hinterrupted).2
        refine ⟨fun w hw => ?_, fun b _ => ?_⟩
        · rcases List.mem_append.mp hw with hw | hw
          · obtain ⟨d, hd, rfl⟩ := List.mem_map.mp hw
            exact hstops d hd
          · rcases List.mem_cons.mp hw with rfl | hw
            · exact htasked
            · exact forall_writesOf hforward w hw
        · simp only [Prog.andThen, Prog.run_bind, Prog.lift, Prog.run_pure, Prog.write,
            Prog.step, List.nil_append]
          obtain ⟨hvalue, hdisk⟩ := hfinished
          have htask : (finished disk a documents).HasTask := by
            unfold Capsule.HasTask
            rw [files_finished (Aggregate.get?_task_documents hdocuments)]
            simp
          cases hran : recover.run (Capsule.putMarker
              (.transaction (a.transaction (a.generation + 1) documents)) disk) with
          | mk stops' value' disk' =>
            rw [hran] at hvalue hdisk
            simp only at hvalue hdisk
            subst hvalue hdisk
            exact htask

end Tasked

end Orqalis
