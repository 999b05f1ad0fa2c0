import Orqalis.Memory.Lifecycle

/-!
# The supersession lifecycle

`LifecycleSound` is what a reader of the memory files relies on: the published transitions
are disjoint paths between records that are there, a path has one active record at most, no
record is active before its transition is published, and the store can be listed.

The lifecycle document keeps its part in every run. Listing is the part that can break: the
store writes a record whose content is blank, and no longer reads it. `lifecycle_sound`
holds of the runs that write only `Storable` records.
-/

namespace Orqalis

open Lib Lib.Crash Lib.Text Relation CuratedMemoryStore

namespace DurableMemoryRecord

/-- Something is left of the record's content when its file is read. -/
def Storable (r : DurableMemoryRecord) : Prop := reread r.title r.content ≠ []

instance (r : DurableMemoryRecord) : Decidable r.Storable := by
  unfold Storable
  infer_instance

/-- A record is read back unless its content is blank and its heading is recognised. -/
theorem storable_iff {r : DurableMemoryRecord} :
    r.Storable ↔ ¬ (Text.blank r.content ∧ '\r' ∉ r.title ∧ Text.rstrip r.title = r.title) :=
  (reread_eq_nil r.titled.1).not

end DurableMemoryRecord

/-- A published transition, and what the readers of the store rely on. -/
structure LifecycleSound (store : CuratedMemoryStore) (s : MemoryDisk) : Prop where
  predecessors : (s.lifecycle.supersessions.map MemorySupersession.predecessor).Nodup
  successors : (s.lifecycle.supersessions.map MemorySupersession.successor).Nodup
  acyclic : ∀ i, ¬ TransGen s.Supersedes i i
  records : ∀ i j, s.Supersedes i j →
    (∃ r, s.Reads i r) ∧ ∃ r, s.Reads j r ∧ r.supersedes = some i
  oneActive : ∀ i j, ReflTransGen s.Supersedes i j → s.Active i → s.Active j → i = j
  activated : ∀ i r p, s.Reads i r → s.state r = .ACTIVE → r.supersedes = some p →
    s.Supersedes p i
  lists : ∀ includeInactive, ∃ rs, store.list includeInactive s = .ok rs ∧
    ∀ r, r ∈ rs ↔ s.Reads r.id r ∧ (includeInactive ∨ s.state r = .ACTIVE)

/-! ## A store and its records -/

/-- A store of a project without links and without secrets. -/
def sampleMemoryStore : CuratedMemoryStore where
  contained _ := true
  secretFree _ := true
  modelDumpJson r := Json.dumps 0 (.obj (("content".toList, .str r.content) :: r.metadata))
  sha256 _ := ⟨List.replicate 64 '0', by decide⟩

/-- A record of user knowledge with a content. -/
def sampleMemory (content : List Char) (h : content ≠ []) : DurableMemoryRecord where
  id := ⟨"MEM-20240101-0001".toList, by decide⟩
  category := .conventions
  title := "Indentation".toList
  content := content
  source := ⟨.user, [], ⟨[], .nil⟩, by simp, by simp⟩
  verifiedCommit := none
  introducedByTask := none
  confidence := .full
  lastVerifiedAt := ⟨"2024-01-01T00:00:00Z".toList, by decide⟩
  supersedes := none
  summary := none
  references := []
  titled := by decide
  filled := h
  summarized := by simp
  referenced := by decide

/-- A record of user knowledge. -/
def sampleTabs : DurableMemoryRecord := sampleMemory "Tabs".toList (by decide)

section Sound

variable {store : CuratedMemoryStore} {op : MemoryOperation} {start s t : MemoryDisk}

/-- A file step that writes storable records leaves every file readable. -/
theorem MemoryMove.readable (hsaves : ∀ r, op.Saves r → r.Storable)
    (happroves : ∀ p, op.Approves start p → p.record.Storable)
    (h : MemoryMove store op start s t) (hs : MemoryKept store s ∧ s.Readable) :
    MemoryKept store t ∧ t.Readable := by
  refine ⟨hs.1.move h, ?_⟩
  obtain ⟨hkept, hreadable⟩ := hs
  cases h with
  | stored r horigin hsources hnew =>
    have hstorable : r.Storable := by
      rcases horigin with h | ⟨p, hp, -, -, rfl⟩
      · exact hsaves r h
      · exact happroves p hp
    intro i hi
    by_cases hid : r.id = i
    · subst hid
      exact ⟨_, _, MemoryDisk.file?_putRecord_self _ _ _, parseRecord_ok _ hstorable⟩
    · rw [MemoryDisk.file?_putRecord_ne s hid] at hi
      obtain ⟨q, file, hfile, hread⟩ := hreadable i hi
      exact ⟨q, file, by rwa [MemoryDisk.file?_putRecord_ne s hid], hread⟩
  | reverified r updated hread hsources hsame =>
    obtain ⟨file, hfile, hread⟩ := hread
    intro i hi
    by_cases hid : r.id = i
    · subst hid
      obtain ⟨q, rfl, -, -⟩ := hkept.files _ _ hfile
      exact ⟨_, _, MemoryDisk.file?_putRecord_self _ _ _,
        parseRecord_ok _ (reread_updated hread hsame)⟩
    · rw [MemoryDisk.file?_putRecord_ne s hid] at hi
      obtain ⟨q, file, hfile, hread⟩ := hreadable i hi
      exact ⟨q, file, by rwa [MemoryDisk.file?_putRecord_ne s hid], hread⟩
  | opened | proposed | published | approved | rejected | archived => exact hreadable

/-- One operation that writes only storable records, wherever it ends or is stopped. -/
def StorableStep (store : CuratedMemoryStore) (s t : MemoryDisk) : Prop :=
  ∃ op : MemoryOperation, (∀ r, op.Saves r → r.Storable) ∧
    (∀ p, op.Approves s p → p.record.Storable) ∧ op.Leaves store s t

/-- Readable memory files are sound. -/
theorem MemoryKept.sound (hkept : MemoryKept store s) (hreadable : s.Readable) :
    LifecycleSound store s := by
  have hvalid := s.lifecycle.valid
  simp only [validTransitions, Bool.and_eq_true, decide_eq_true_eq] at hvalid
  obtain ⟨⟨hpredecessors, hsuccessors⟩, hacyclic⟩ := hvalid
  have hkeys : (arrows s.lifecycle.supersessions).map Prod.fst =
      s.lifecycle.supersessions.map MemorySupersession.predecessor := by
    simp [arrows]
  refine ⟨hpredecessors, hsuccessors, (Walk.acyclic_iff (hkeys ▸ hpredecessors)).mp hacyclic,
    fun i j hij => ?_, fun i j hij hi hj => ?_,
    fun i r p hr hstate => ((hkept.reads_active_iff hr).mp hstate).2 p, hkept.list hreadable⟩
  · obtain ⟨e, he, rfl, rfl⟩ := MemoryDisk.supersedes_iff.mp hij
    obtain ⟨hpredecessor, q, hq, hid, hsupersedes⟩ := hkept.transitions e he
    unfold MemoryDisk.Holds at hq
    obtain ⟨r, hr⟩ := hreadable e.successor (by rw [← hid, hq]; rfl)
    exact ⟨hreadable _ hpredecessor, r, hr, by rw [hr.supersedes hq hid, hsupersedes]⟩
  · -- An active record has no successor, so the path from it is empty.
    obtain ⟨r, hr, hlast, -⟩ := hkept.active_iff.mp hi
    rcases ReflTransGen.cases_head hij with rfl | ⟨k, hk, -⟩
    · rfl
    · exact absurd hk (hlast k)

/-- In every run whose operations write only storable records, stopped after any file steps
and tried again in any way, the memory lifecycle is sound. -/
theorem lifecycle_sound (h : ReflTransGen (StorableStep store) {} s) : LifecycleSound store s := by
  have hkept : MemoryKept store s ∧ s.Readable := by
    refine System.Preserved.run (I := fun s => MemoryKept store s ∧ s.Readable) ?_ h
      ⟨kept_empty, fun i hi => by cases hi⟩
    rintro s t hs ⟨op, hsaves, happroves, hleaves⟩
    refine System.Preserved.run (I := fun s => MemoryKept store s ∧ s.Readable) ?_
      (hleaves.moves hs.1.named) hs
    exact fun _ _ hs hmove => hmove.readable hsaves happroves hs
  exact hkept.1.sound hkept.2

/-- A store into which one record was saved. -/
theorem sampleMemory_sound :
    LifecycleSound sampleMemoryStore ((sampleMemoryStore.save
      (sampleMemory "Use two blanks.".toList (by decide))).run {}).disk := by
  refine lifecycle_sound (.single ⟨.save (sampleMemory "Use two blanks.".toList (by decide)),
    ?_, by rintro p ⟨⟩, .inr rfl⟩)
  rintro r rfl
  exact DurableMemoryRecord.storable_iff.mpr (by decide)

/-- A record whose content is blank is saved, and the store is no longer listed. -/
theorem sampleMemory_blank :
    ((sampleMemoryStore.save (sampleMemory [' '] (by decide))).run {}).value = .ok ⟨⟩ ∧
      ¬ LifecycleSound sampleMemoryStore
        ((sampleMemoryStore.save (sampleMemory [' '] (by decide))).run {}).disk := by
  refine ⟨rfl, fun hsound => ?_⟩
  obtain ⟨rs, hrs, -⟩ := hsound.lists true
  have hblank : ¬ (sampleMemory [' '] (by decide)).Storable := fun h =>
    DurableMemoryRecord.storable_iff.mp h (by decide)
  have hfile : ((sampleMemoryStore.save (sampleMemory [' '] (by decide))).run {}).disk.file?
      (sampleMemory [' '] (by decide)).id = some (frontmatter (sampleMemory [' '] (by decide))) :=
    MemoryDisk.file?_putRecord_self {} _ _
  obtain ⟨e, he⟩ := list_error sampleMemoryStore hfile
    (fun r hr => hblank (parseRecord_eq_ok hr).1) true
  rw [hrs] at he
  cases he

end Sound

end Orqalis
