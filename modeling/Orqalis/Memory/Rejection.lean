import Orqalis.Memory.Saving

/-!
# Rejected memory

An approval writes the record before it decides the proposal. When it stops in between, a
record that supersedes nothing is active already, and the proposal can still be rejected:
then it is rejected and its record is active (`sampleMemory_rejected_active`).

`rejected_stays_inactive` is the other side: where no proposal is rejected whose record is
active already, the record of a rejected proposal is inactive for good. A record that
supersedes another one stays hidden, because nothing publishes its transition.
-/

namespace Orqalis

open Lib Lib.Crash Relation CuratedMemoryStore

/-- What keeps rejected records inactive. -/
structure RejectedQuiet (s : MemoryDisk) : Prop where
  held : ∀ p ∈ s.proposals, ∀ file, s.file? p.record.id = some file →
    ∃ r, file = frontmatter r ∧ r.id = p.record.id ∧ r.supersedes = p.record.supersedes
  absent : ∀ p ∈ s.proposals, p.status = .REJECTED → p.record.supersedes = none →
    s.file? p.record.id = none

/-- What an operation may do: save a record no proposal names, and reject a proposal whose
record is not active already. -/
structure MemoryOperation.Orderly (op : MemoryOperation) (start s : MemoryDisk) : Prop where
  saves : ∀ r, op.Saves r → ∀ p ∈ s.proposals, p.record.id ≠ r.id
  rejects : ∀ p, op.Rejects start p → p.record.supersedes = none → s.file? p.record.id = none

section Quiet

variable {store : CuratedMemoryStore} {op : MemoryOperation} {start s t : MemoryDisk}

theorem not_saves_of_approves {p : MemoryProposal} {r : DurableMemoryRecord}
    (h : op.Approves start p) : ¬ op.Saves r := by
  cases op <;> simp_all [MemoryOperation.Approves, MemoryOperation.Saves]

theorem not_rejects_of_approves {p q : MemoryProposal} (h : op.Approves start p) :
    ¬ op.Rejects start q := by
  cases op <;> simp_all [MemoryOperation.Approves, MemoryOperation.Rejects]

theorem not_saves_of_rejects {p : MemoryProposal} {r : DurableMemoryRecord}
    (h : op.Rejects start p) : ¬ op.Saves r := by
  cases op <;> simp_all [MemoryOperation.Rejects, MemoryOperation.Saves]

theorem not_saves_of_proposes {r : DurableMemoryRecord} (h : op.Proposes) : ¬ op.Saves r := by
  cases op <;> simp_all [MemoryOperation.Proposes, MemoryOperation.Saves]

/-- Writing a staged document keeps what is said of the records it does not name. -/
theorem RejectedQuiet.putStaged {d : ProposalDirectory} (hquiet : RejectedQuiet s)
    (hheld : ∀ p, d.proposal = some p → ∀ file, s.file? p.record.id = some file →
      ∃ r, file = frontmatter r ∧ r.id = p.record.id ∧ r.supersedes = p.record.supersedes)
    (habsent : ∀ p, d.proposal = some p → p.status = .REJECTED → p.record.supersedes = none →
      s.file? p.record.id = none) : RejectedQuiet (s.putStaged d) := by
  refine ⟨fun p hp file hfile => ?_, fun p hp hrejected hnone => ?_⟩
  · rcases proposals_putStaged hp with hp | hp
    · exact hheld p hp file hfile
    · exact hquiet.held p hp file hfile
  · rcases proposals_putStaged hp with hp | hp
    · exact habsent p hp hrejected hnone
    · exact hquiet.absent p hp hrejected hnone

/-- A file step of an orderly operation keeps rejected records inactive. -/
theorem RejectedQuiet.move (hkept : MemoryKept store s) (hquiet : RejectedQuiet s)
    (horderly : op.Orderly start s)
    (h : MemoryMove store op start s t) : RejectedQuiet t := by
  cases h with
  | stored r horigin hsources hnew =>
    -- Whose record it is that is written now.
    have howner : ∀ p ∈ s.proposals, p.record.id = r.id → p.record = r ∧ p.status ≠ .REJECTED := by
      intro p hp hid
      rcases horigin with hsaves | ⟨q, -, hstaged, hstatus, rfl⟩
      · exact absurd hid (horderly.saves r hsaves p hp)
      · have hq := MemoryDisk.mem_proposals_of_staged? hstaged
        obtain rfl := hkept.eq_of_staged hstaged hp (hkept.sole p hp q hq hid)
        exact ⟨rfl, hstatus⟩
    refine ⟨fun p hp file hfile => ?_, fun p hp hrejected hnone => ?_⟩
    · by_cases hid : p.record.id = r.id
      · obtain ⟨hrecord, -⟩ := howner p hp hid
        rw [hid, MemoryDisk.file?_putRecord_self] at hfile
        exact ⟨r, (Option.some.inj hfile).symm, hid.symm, by rw [hrecord]⟩
      · rw [MemoryDisk.file?_putRecord_ne s (Ne.symm hid)] at hfile
        exact hquiet.held p hp file hfile
    · by_cases hid : p.record.id = r.id
      · exact absurd hrejected (howner p hp hid).2
      · rw [MemoryDisk.file?_putRecord_ne s (Ne.symm hid)]
        exact hquiet.absent p hp hrejected hnone
  | reverified r updated hread hsources hsame =>
    obtain ⟨old, hold, hparse⟩ := hread
    refine ⟨fun p hp file hfile => ?_, fun p hp hrejected hnone => ?_⟩
    · by_cases hid : p.record.id = r.id
      · obtain ⟨q, rfl, -, hsupersedes⟩ := hquiet.held p hp old (by rw [hid, hold])
        obtain ⟨hne, hr⟩ := parseRecord_eq_ok hparse
        rw [hid, MemoryDisk.file?_putRecord_self] at hfile
        refine ⟨updated, (Option.some.inj hfile).symm, by rw [hsame.id, hid], ?_⟩
        rw [hsame.supersedes, hr, ← hsupersedes]
        rfl
      · rw [MemoryDisk.file?_putRecord_ne s (Ne.symm hid)] at hfile
        exact hquiet.held p hp file hfile
    · have habsent := hquiet.absent p hp hrejected hnone
      have hid : r.id ≠ p.record.id := by
        intro hid
        rw [← hid, hold] at habsent
        cases habsent
      rwa [MemoryDisk.file?_putRecord_ne s hid]
  | opened i hop hstaging hhistory => exact hquiet.putStaged (by simp) (by simp)
  | proposed p hop hopen hpending hnew hfirst hasks =>
    refine hquiet.putStaged ?_ ?_
    · rintro q ⟨⟩ file hfile
      rw [hnew] at hfile
      cases hfile
    · rintro q ⟨⟩ hrejected
      rw [hpending] at hrejected
      cases hrejected
  | published p i e document hop hstaged hstatus hwritten hi he hpredecessor hdocument =>
    exact ⟨hquiet.held, hquiet.absent⟩
  | approved p q hop hstaged hstatus hwritten hactivated hq happroved =>
    refine hquiet.putStaged ?_ ?_
    · rintro w ⟨⟩
      rw [hq.record]
      exact hquiet.held p (MemoryDisk.mem_proposals_of_staged? hstaged)
    · rintro w ⟨⟩ hrejected
      rw [happroved] at hrejected
      cases hrejected
  | rejected p q hop hstaged hstatus hunpublished hq hrejected =>
    refine hquiet.putStaged ?_ ?_
    · rintro w ⟨⟩
      rw [hq.record]
      exact hquiet.held p (MemoryDisk.mem_proposals_of_staged? hstaged)
    · rintro w ⟨⟩ -
      rw [hq.record]
      exact horderly.rejects p hop
  | archived p hstaged hstatus =>
    refine ⟨fun q hq => ?_, fun q hq => ?_⟩
    · exact hquiet.held q ((mem_proposals_archive hkept hstaged).mp hq)
    · exact hquiet.absent q ((mem_proposals_archive hkept hstaged).mp hq)

/-- While an operation runs it stays orderly. -/
theorem MemoryOperation.Orderly.move (hkept : MemoryKept store s) (horderly : op.Orderly start s)
    (h : MemoryMove store op start s t) : op.Orderly start t := by
  obtain ⟨hsaves, hrejects⟩ := horderly
  cases h with
  | stored r horigin hsources hnew =>
    refine ⟨hsaves, fun p hp hnone => ?_⟩
    rcases horigin with h | ⟨q, h, -⟩
    · exact absurd h (not_saves_of_rejects hp)
    · exact absurd hp (not_rejects_of_approves h)
  | reverified r updated hread hsources hsame =>
    refine ⟨hsaves, fun p hp hnone => ?_⟩
    obtain ⟨file, hfile, -⟩ := hread
    have habsent := hrejects p hp hnone
    have hid : r.id ≠ p.record.id := by
      intro hid
      rw [← hid, hfile] at habsent
      cases habsent
    rwa [MemoryDisk.file?_putRecord_ne s hid]
  | opened i hop hstaging hhistory =>
    exact ⟨fun r hr => absurd hr (not_saves_of_proposes hop), hrejects⟩
  | proposed p hop hopen hpending hnew hfirst hasks =>
    exact ⟨fun r hr => absurd hr (not_saves_of_proposes hop), hrejects⟩
  | published p i e document hop hstaged hstatus hwritten hi he hpredecessor hdocument =>
    exact ⟨hsaves, hrejects⟩
  | approved p q hop hstaged hstatus hwritten hactivated hq happroved =>
    exact ⟨fun r hr => absurd hr (not_saves_of_approves hop), hrejects⟩
  | rejected p q hop hstaged hstatus hunpublished hq hrejected =>
    exact ⟨fun r hr => absurd hr (not_saves_of_rejects hop), hrejects⟩
  | archived p hstaged hstatus =>
    exact ⟨fun r hr q hq => hsaves r hr q ((mem_proposals_archive hkept hstaged).mp hq), hrejects⟩

/-- A rejected proposal of a record stays. -/
def MemoryDisk.Rejected (s : MemoryDisk) (i : MemoryId) : Prop :=
  ∃ p ∈ s.proposals, p.status = .REJECTED ∧ p.record.id = i

theorem MemoryMove.rejected_stays (hkept : MemoryKept store s) (h : MemoryMove store op start s t)
    {i : MemoryId} (hrejected : s.Rejected i) : t.Rejected i := by
  obtain ⟨w, hw, hstatus, rfl⟩ := hrejected
  -- A document that replaces no rejected one leaves it where it is.
  have hput : ∀ d : ProposalDirectory, (∀ e ∈ s.staging, e.id = d.id → e.proposal ≠ some w) →
      (s.putStaged d).Rejected w.record.id := by
    intro d hd
    obtain ⟨e, he, hew⟩ := MemoryDisk.mem_proposals.mp hw
    refine ⟨w, MemoryDisk.mem_proposals_putStaged.mpr (.inr ⟨e, ?_, hew⟩), hstatus, rfl⟩
    exact he.imp (fun h => ⟨h, fun hid => hd e h hid hew⟩) fun h => h
  have hstagedNe : ∀ {p : MemoryProposal}, s.staged? p.id = some p → p ≠ w →
      ∀ e ∈ s.staging, e.id = p.id → e.proposal ≠ some w := by
    intro p hp hne e he hid hew
    have heq := Table.eq_of_mem_key he (MemoryDisk.mem_of_staged? hp) hid
    rw [heq] at hew
    exact hne (Option.some.inj hew)
  cases h with
  | stored | reverified | published => exact ⟨w, hw, hstatus, rfl⟩
  | opened i hop hstaging hhistory =>
    refine hput _ fun e he hid => ?_
    have hnone := Table.get?_eq_none.mp (by simpa [Table.has] using hstaging)
    exact absurd hid (hnone e he)
  | proposed p hop hopen hpending hnew hfirst hasks =>
    refine hput _ fun e he hid => ?_
    rw [Table.eq_of_mem_key he (Table.mem_of_get? hopen) hid]
    simp
  | approved p q hop hstaged hlive hwritten hactivated hq happroved =>
    exact hput _ (hstagedNe hstaged fun h => hlive (h ▸ hstatus))
  | rejected p q hop hstaged hlive hunpublished hq hrejected =>
    by_cases hpw : p = w
    · subst hpw
      exact ⟨q, MemoryDisk.mem_proposals_putStaged.mpr (.inl rfl), hrejected, by rw [hq.record]⟩
    · exact hput _ (hstagedNe hstaged hpw)
  | archived p hstaged hlive =>
    exact ⟨w, (mem_proposals_archive hkept hstaged).mpr hw, hstatus, rfl⟩

/-- One operation, wherever it ends or is stopped, that saves no record a proposal names and
rejects no proposal whose record supersedes nothing and is stored. -/
def OrderlyStep (store : CuratedMemoryStore) (s t : MemoryDisk) : Prop :=
  ∃ op : MemoryOperation, op.Orderly s s ∧ op.Leaves store s t

/-- An orderly operation keeps rejected records inactive and rejected. -/
theorem OrderlyStep.keeps (h : OrderlyStep store s t) (hkept : MemoryKept store s)
    (hquiet : RejectedQuiet s) :
    (MemoryKept store t ∧ RejectedQuiet t) ∧ ∀ i, s.Rejected i → t.Rejected i := by
  obtain ⟨op, horderly, hleaves⟩ := h
  have hrun : ∀ u, ReflTransGen (MemoryMove store op s) s u →
      (MemoryKept store u ∧ RejectedQuiet u ∧ op.Orderly s u) ∧
        ∀ i, s.Rejected i → u.Rejected i := by
    intro u hu
    induction hu with
    | refl => exact ⟨⟨hkept, hquiet, horderly⟩, fun _ h => h⟩
    | tail _ hmove ih =>
      obtain ⟨⟨hkept', hquiet', horderly'⟩, hstays⟩ := ih
      exact ⟨⟨hkept'.move hmove, hquiet'.move hkept' horderly' hmove, horderly'.move hkept' hmove⟩,
        fun i hi => hmove.rejected_stays hkept' (hstays i hi)⟩
  obtain ⟨⟨hkept', hquiet', -⟩, hstays⟩ := hrun t (hleaves.moves hkept.named)
  exact ⟨⟨hkept', hquiet'⟩, hstays⟩

/-- The record of a rejected proposal is inactive. -/
theorem RejectedQuiet.inactive (hkept : MemoryKept store s) (hquiet : RejectedQuiet s)
    {i : MemoryId}
    (hrejected : s.Rejected i) : ¬ s.Active i := by
  obtain ⟨p, hp, hstatus, rfl⟩ := hrejected
  rintro ⟨r, ⟨file, hfile, hread⟩, hactive⟩
  have hid := (hkept.of_reads ⟨file, hfile, hread⟩).1
  obtain ⟨q, rfl, -, hsupersedes⟩ := hquiet.held p hp file hfile
  obtain ⟨hne, hr⟩ := parseRecord_eq_ok hread
  cases hnone : p.record.supersedes with
  | none =>
    rw [hquiet.absent p hp hstatus hnone] at hfile
    cases hfile
  | some j =>
    -- Its transition would have been published for another proposal of the record.
    have hrj : r.supersedes = some j := by
      rw [hr, ← hnone, ← hsupersedes]
      rfl
    obtain ⟨e, he, -, hsuccessor⟩ := MemoryDisk.supersedes_iff.mp
      ((MemoryDisk.state_eq_active.mp hactive).2 j hrj)
    obtain ⟨w, hw, hwid, -, hlive⟩ := hkept.published e he
    have hsame := (hkept.agrees_of_successor hp he (hsuccessor.trans hid)).1
    rw [hkept.eq_of_id hw hp (hwid.trans hsame)] at hlive
    exact hlive hstatus

/-- In every run of orderly operations, stopped after any file steps and tried again in any
way, the record of a rejected proposal is not active and not listed, then and later. -/
theorem rejected_stays_inactive (hrun : ReflTransGen (OrderlyStep store) {} s)
    {p : MemoryProposal} (hp : p ∈ s.proposals) (hrejected : p.status = .REJECTED)
    (hlater : ReflTransGen (OrderlyStep store) s t) :
    ¬ t.Active p.record.id ∧
      ∀ rs, store.list false t = .ok rs → ∀ r ∈ rs, r.id ≠ p.record.id := by
  have hempty : RejectedQuiet {} := by
    constructor <;> intro p hp <;> cases hp
  have hstart : MemoryKept store s ∧ RejectedQuiet s := by
    refine System.Preserved.run (I := fun s => MemoryKept store s ∧ RejectedQuiet s) ?_ hrun
      ⟨kept_empty, hempty⟩
    exact fun _ _ hs hstep => (hstep.keeps hs.1 hs.2).1
  have hend : (MemoryKept store t ∧ RejectedQuiet t) ∧ t.Rejected p.record.id := by
    refine System.Preserved.run
      (I := fun t => (MemoryKept store t ∧ RejectedQuiet t) ∧ t.Rejected p.record.id) ?_ hlater
      ⟨hstart, p, hp, hrejected, rfl⟩
    rintro _ _ ⟨hs, hstays⟩ hstep
    obtain ⟨hkeeps, hrejected'⟩ := hstep.keeps hs.1 hs.2
    exact ⟨hkeeps, hrejected' _ hstays⟩
  obtain ⟨⟨hkept, hquiet⟩, hstays⟩ := hend
  have hinactive := hquiet.inactive hkept hstays
  refine ⟨hinactive, fun rs hrs r hr hid => hinactive ?_⟩
  obtain ⟨rs', hrs', hmem⟩ := hkept.list (readable_of_list hrs) false
  rw [hrs] at hrs'
  obtain rfl := Except.ok.inj hrs'
  obtain ⟨hreads, hactive⟩ := (hmem r).mp hr
  exact ⟨r, hid ▸ hreads, by simpa using hactive⟩

/-- A review of the sample record was proposed. -/
def sampleProposed : MemoryDisk :=
  ((sampleMemoryStore.propose sampleTabs "Style".toList .review []
    none 20240101 0).run {}).disk

/-- The sample proposal is rejected before anything of it is approved. -/
theorem sampleMemory_rejected_inactive :
    ¬ ((sampleMemoryStore.reject ⟨20240101, 1⟩ "No".toList 1).run sampleProposed).disk.Active
      sampleTabs.id := by
  have hproposed : OrderlyStep sampleMemoryStore {} sampleProposed :=
    ⟨.propose sampleTabs "Style".toList .review [] none 20240101 0,
      ⟨by rintro r ⟨⟩, by rintro p ⟨⟩⟩, .inr rfl⟩
  have hrejected : OrderlyStep sampleMemoryStore sampleProposed
      ((sampleMemoryStore.reject ⟨20240101, 1⟩ "No".toList 1).run sampleProposed).disk :=
    ⟨.reject ⟨20240101, 1⟩ "No".toList 1,
      ⟨by rintro r ⟨⟩, by rintro p ⟨⟩ -; rfl⟩, .inr rfl⟩
  obtain ⟨p, hall, hstatus, hid⟩ : ∃ p,
      ((sampleMemoryStore.reject ⟨20240101, 1⟩ "No".toList 1).run sampleProposed).disk.proposals =
        [p] ∧ p.status = .REJECTED ∧
      p.record.id = sampleTabs.id := ⟨_, rfl, rfl, rfl⟩
  rw [← hid]
  have hp := hall ▸ List.mem_singleton_self p
  exact (rejected_stays_inactive (.tail (.single hproposed) hrejected) hp hstatus .refl).1

/-- The approval of the sample proposal stopped after its first file step. -/
def sampleStopped : MemoryDisk :=
  sampleProposed.putRecord sampleTabs.id
    (frontmatter sampleTabs)

/-- An approval stops after the record is written, and the proposal is rejected: its record
is active. -/
theorem sampleMemory_rejected_active :
    ∃ s, ReflTransGen (MemoryStep sampleMemoryStore) {} s ∧
      ∃ p ∈ s.proposals, p.status = .REJECTED ∧ s.Active p.record.id := by
  have hproposed : MemoryStep sampleMemoryStore {} sampleProposed :=
    ⟨.propose sampleTabs "Style".toList .review [] none 20240101 0,
      .inr rfl⟩
  have hstopped : MemoryStep sampleMemoryStore sampleProposed sampleStopped :=
    ⟨.approve ⟨20240101, 1⟩ "Yes".toList 1, .inl (List.mem_of_head? (a := sampleStopped) rfl)⟩
  have hrejected : MemoryStep sampleMemoryStore sampleStopped
      ((sampleMemoryStore.reject ⟨20240101, 1⟩ "No".toList 1).run sampleStopped).disk :=
    ⟨.reject ⟨20240101, 1⟩ "No".toList 1, .inr rfl⟩
  obtain ⟨p, hall, hstatus, hid⟩ : ∃ p,
      ((sampleMemoryStore.reject ⟨20240101, 1⟩ "No".toList 1).run sampleStopped).disk.proposals =
        [p] ∧ p.status = .REJECTED ∧
      p.record.id = sampleTabs.id := ⟨_, rfl, rfl, rfl⟩
  refine ⟨_, .tail (.tail (.single hproposed) hstopped) hrejected, p,
    hall ▸ List.mem_singleton_self p, hstatus, ?_⟩
  rw [hid]
  refine ⟨sampleTabs,
    ⟨frontmatter sampleTabs, ?_, ?_⟩, rfl⟩
  · exact MemoryDisk.file?_putRecord_self sampleProposed _ _
  · exact parseRecord_eq_self.mpr (by decide)

end Quiet

end Orqalis
