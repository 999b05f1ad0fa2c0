import Orqalis.Lib.System
import Orqalis.Memory.Moves

/-!
# What the memory files keep

`MemoryKept` is the invariant of the curated store: every record file is the text of a record of
its own name, every directory is named by its proposal, no two proposals have one record,
and every published transition is one that a proposal asked for, between records that are
there. Every file step keeps it (`MemoryKept.move`), so every run does, wherever it was stopped.
-/

namespace Orqalis

open Lib Lib.Crash Relation CuratedMemoryStore

/-- A record file is read as its record with the content that is left of it. -/
theorem parseRecord_eq_ok {name : String} {r q : DurableMemoryRecord}
    (h : parseRecord name (frontmatter r) = .ok q) :
    ∃ hne : reread r.title r.content ≠ [], q = r.withContent _ hne := by
  rw [parseRecord_frontmatter] at h
  split at h
  · next hne =>
    cases h
    exact ⟨hne, rfl⟩
  · cases h

theorem parseRecord_ok (name : String) {r : DurableMemoryRecord}
    (h : reread r.title r.content ≠ []) :
    parseRecord name (frontmatter r) = .ok (r.withContent _ h) := by
  rw [parseRecord_frontmatter, dif_pos h]

section Lookup

variable {store : CuratedMemoryStore} {s : MemoryDisk} {i : MemoryId} {r q : DurableMemoryRecord}

theorem validateSources_congr (h : q.source.paths = r.source.paths) :
    store.validateSources q = store.validateSources r := by
  simp only [validateSources, h]

/-- A file that reads as a record inside the project is found. -/
theorem lookup_eq_ok : store.lookup i s = .ok q ↔
    ∃ file, s.file? i = some file ∧ parseRecord (fileName i) file = .ok q ∧
      store.validateSources q = .ok () := by
  unfold CuratedMemoryStore.lookup parseValid
  cases hfile : s.file? i with
  | none => simp
  | some file =>
    simp only [Option.some.injEq, exists_eq_left']
    cases hread : parseRecord (fileName i) file with
    | error e => simp [bind, Except.bind]
    | ok r =>
      cases hsources : store.validateSources r with
      | error e =>
        simp only [bind, Except.bind, hsources, reduceCtorEq, Except.ok.injEq, false_iff, not_and]
        rintro rfl h
        rw [hsources] at h
        cases h
      | ok _ =>
        simp only [bind, Except.bind, hsources, pure, Except.pure, Except.ok.injEq, iff_self_and]
        rintro rfl
        exact hsources

end Lookup

namespace MemoryDisk

/-- The file of a record is the text of a record of its name. -/
def Holds (s : MemoryDisk) (r : DurableMemoryRecord) : Prop := s.file? r.id = some (frontmatter r)

end MemoryDisk

/-- What the memory files keep. -/
structure MemoryKept (store : CuratedMemoryStore) (s : MemoryDisk) : Prop where
  files : ∀ i file, s.file? i = some file →
    ∃ r, file = frontmatter r ∧ r.id = i ∧ store.validateSources r = .ok ()
  named : s.Named
  apart : ∀ d ∈ s.staging, ∀ e ∈ s.history, d.id ≠ e.id
  sole : ∀ p ∈ s.proposals, ∀ q ∈ s.proposals, p.record.id = q.record.id → p.id = q.id
  asked : ∀ p ∈ s.proposals, store.Proposable p s
  transitions : ∀ e ∈ s.lifecycle.supersessions, (s.file? e.predecessor).isSome ∧
    ∃ r, s.Holds r ∧ r.id = e.successor ∧ r.supersedes = some e.predecessor
  published : ∀ e ∈ s.lifecycle.supersessions,
    ∃ p ∈ s.proposals, p.id = e.proposalId ∧ agrees e p ∧ p.status ≠ .REJECTED

/-- One disk keeps the records of another: what was there is there, what was found is
found, and no record changes what it supersedes. -/
structure Standing (store : CuratedMemoryStore) (s t : MemoryDisk) : Prop where
  file : ∀ i, (s.file? i).isSome → (t.file? i).isSome
  record : ∀ r, s.Holds r → ∃ q, t.Holds q ∧ q.id = r.id ∧ q.supersedes = r.supersedes
  found : ∀ i q, store.lookup i s = .ok q → ∃ q', store.lookup i t = .ok q'

section Standing

variable {store : CuratedMemoryStore} {s t : MemoryDisk}

theorem Standing.of_records (h : t.records = s.records) : Standing store s t := by
  have hfile : ∀ i, t.file? i = s.file? i := fun i => by simp only [MemoryDisk.file?, h]
  refine ⟨fun i hi => by rwa [hfile], fun r hr => ⟨r, ?_, rfl, rfl⟩, fun i q hq => ⟨q, ?_⟩⟩
  · simpa only [MemoryDisk.Holds, hfile] using hr
  · simpa only [lookup_eq_ok, hfile] using hq

theorem Standing.stored {r : DurableMemoryRecord} (h : s.file? r.id = none) :
    Standing store s (s.putRecord r.id (frontmatter r)) := by
  have hold : ∀ i, (s.file? i).isSome →
      (s.putRecord r.id (frontmatter r)).file? i = s.file? i := by
    intro i hi
    refine MemoryDisk.file?_putRecord_ne s ?_ _
    rintro rfl
    simp [h] at hi
  refine ⟨fun i hi => by rwa [hold i hi], fun q hq => ⟨q, ?_, rfl, rfl⟩, fun i q hq => ⟨q, ?_⟩⟩
  · unfold MemoryDisk.Holds at hq ⊢
    rwa [hold q.id (by simp [hq])]
  · obtain ⟨file, hfile, hread⟩ := lookup_eq_ok.mp hq
    exact lookup_eq_ok.mpr ⟨file, by rwa [hold i (by simp [hfile])], hread⟩

/-- A record file that is written again with its knowledge is read again. -/
theorem reread_updated {r q updated : DurableMemoryRecord} {name : String}
    (hread : parseRecord name (frontmatter r) = .ok q) (hsame : SameKnowledge q updated) :
    reread updated.title updated.content ≠ [] := by
  obtain ⟨hne, rfl⟩ := parseRecord_eq_ok hread
  rw [hsame.title, hsame.content]
  exact reread_reread r.titled.1 hne

theorem Standing.reverified (hkept : MemoryKept store s) {q updated : DurableMemoryRecord}
    {file : List Char} (hfile : s.file? q.id = some file)
    (hread : parseRecord (fileName q.id) file = .ok q) (hsame : SameKnowledge q updated) :
    Standing store s (s.putRecord q.id (frontmatter updated)) := by
  obtain ⟨r, rfl, hid, hsources⟩ := hkept.files _ _ hfile
  have hnew : (s.putRecord q.id (frontmatter updated)).file? q.id = some (frontmatter updated) :=
    MemoryDisk.file?_putRecord_self _ _ _
  obtain ⟨hne, hq⟩ := parseRecord_eq_ok hread
  refine ⟨fun i hi => ?_, fun w hw => ?_, fun i w hw => ?_⟩
  · by_cases hi' : q.id = i
    · rw [← hi', hnew]
      rfl
    · rwa [MemoryDisk.file?_putRecord_ne s hi']
  · by_cases hi' : q.id = w.id
    · refine ⟨updated, ?_, by rw [hsame.id, hi'], ?_⟩
      · unfold MemoryDisk.Holds
        rw [hsame.id, hnew]
      · -- What is read from the file of `w` supersedes what `w` does.
        unfold MemoryDisk.Holds at hw
        rw [← hi', hfile] at hw
        rw [Option.some.inj hw] at hread
        obtain ⟨hw', hqw⟩ := parseRecord_eq_ok hread
        rw [hsame.supersedes, hqw]
        rfl
    · refine ⟨w, ?_, rfl, rfl⟩
      unfold MemoryDisk.Holds at hw ⊢
      rwa [MemoryDisk.file?_putRecord_ne s hi']
  · by_cases hi' : q.id = i
    · subst hi'
      have hupdated := reread_updated hread hsame
      refine ⟨_, lookup_eq_ok.mpr ⟨_, hnew, parseRecord_ok _ hupdated, ?_⟩⟩
      rw [← hsources]
      refine validateSources_congr ?_
      show updated.source.paths = _
      rw [hsame.paths, hq]
      rfl
    · refine ⟨w, ?_⟩
      rw [lookup_eq_ok] at hw ⊢
      rwa [MemoryDisk.file?_putRecord_ne s hi']

end Standing

/-! ## Every file step keeps it -/

section MemoryKept

variable {store : CuratedMemoryStore} {op : MemoryOperation} {start s t : MemoryDisk}

theorem Proposable.standing {p : MemoryProposal} (h : store.Proposable p s)
    (hst : Standing store s t) : store.Proposable p t := by
  obtain ⟨hsources, hreferences, hsupersedes⟩ := h
  refine ⟨hsources, fun i hi => ?_, fun i hi => ?_⟩
  · obtain ⟨q, hq⟩ := hreferences i hi
    exact hst.found i q hq
  · obtain ⟨hne, hdigest, q, hq⟩ := hsupersedes i hi
    exact ⟨hne, hdigest, hst.found i q hq⟩

/-- A file step keeps the records of the disk. -/
theorem MemoryMove.standing (hkept : MemoryKept store s) (h : MemoryMove store op start s t) :
    Standing store s t := by
  cases h with
  | stored r horigin hsources hnew => exact .stored hnew
  | reverified r updated hread hsources hsame =>
    obtain ⟨file, hfile, hread⟩ := hread
    exact .reverified hkept hfile hread hsame
  | opened => exact .of_records rfl
  | proposed => exact .of_records rfl
  | published => exact .of_records rfl
  | approved => exact .of_records rfl
  | rejected => exact .of_records rfl
  | archived => exact .of_records rfl

/-- Writing a record file keeps what is said of the other files. -/
theorem MemoryKept.putRecord {r : DurableMemoryRecord} (hkept : MemoryKept store s)
    (hst : Standing store s (s.putRecord r.id (frontmatter r)))
    (hsources : store.validateSources r = .ok ()) :
    MemoryKept store (s.putRecord r.id (frontmatter r)) := by
  refine ⟨fun i file hfile => ?_, hkept.named, hkept.apart, hkept.sole,
    fun p hp => Proposable.standing (hkept.asked p hp) hst, fun e he => ?_, hkept.published⟩
  · by_cases hi : r.id = i
    · subst hi
      rw [MemoryDisk.file?_putRecord_self] at hfile
      exact ⟨r, (Option.some.inj hfile).symm, rfl, hsources⟩
    · rw [MemoryDisk.file?_putRecord_ne s hi] at hfile
      exact hkept.files i file hfile
  · obtain ⟨hpredecessor, q, hq, hid, hsupersedes⟩ := hkept.transitions e he
    obtain ⟨q', hq', hid', hsupersedes'⟩ := hst.record q hq
    exact ⟨hst.file _ hpredecessor, q', hq', hid'.trans hid, hsupersedes'.trans hsupersedes⟩

/-- A directory is named by its proposal, and the directories of the two areas differ. -/
theorem MemoryKept.eq_of_id {p q : MemoryProposal} (hkept : MemoryKept store s)
    (hp : p ∈ s.proposals) (hq : q ∈ s.proposals) (hid : p.id = q.id) : p = q := by
  obtain ⟨d, hd, hdp⟩ := MemoryDisk.mem_proposals.mp hp
  obtain ⟨e, he, heq⟩ := MemoryDisk.mem_proposals.mp hq
  have hde : d.id = e.id :=
    (hkept.named d hd p hdp).symm.trans (hid.trans (hkept.named e he q heq))
  have hsame : d = e := by
    rcases hd with hd | hd <;> rcases he with he | he
    · exact Table.eq_of_mem_key hd he hde
    · exact absurd hde (hkept.apart d hd e he)
    · exact absurd hde.symm (hkept.apart e he d hd)
    · exact Table.eq_of_mem_key hd he hde
  rw [hsame, heq] at hdp
  exact (Option.some.inj hdp).symm

/-- A proposal with the identity of a staged one is that one. -/
theorem MemoryKept.eq_of_staged {p w : MemoryProposal} (hkept : MemoryKept store s)
    (hstaged : s.staged? p.id = some p) (hw : w ∈ s.proposals) (hid : w.id = p.id) : w = p :=
  hkept.eq_of_id hw (MemoryDisk.mem_proposals_of_staged? hstaged) hid

/-- The proposals of a disk after a staged document was written. -/
theorem proposals_putStaged {d : ProposalDirectory} {p : MemoryProposal}
    (h : p ∈ (s.putStaged d).proposals) : d.proposal = some p ∨ p ∈ s.proposals := by
  rcases MemoryDisk.mem_proposals_putStaged.mp h with h | ⟨e, he, h⟩
  · exact .inl h
  · exact .inr (MemoryDisk.mem_proposals.mpr ⟨e, he.imp And.left fun h => h, h⟩)

/-- Another document of a staged proposal. -/
theorem MemoryKept.putStaged {p q : MemoryProposal} (hkept : MemoryKept store s)
    (hstaged : s.staged? p.id = some p) (hq : q.SameProposal p)
    (hlive : q.status = .REJECTED → CuratedMemoryStore.published s.lifecycle p.id = none) :
    MemoryKept store (s.putStaged ⟨p.id, some q⟩) := by
  have hst : Standing store s (s.putStaged ⟨p.id, some q⟩) := .of_records rfl
  have hp := MemoryDisk.mem_of_staged? hstaged
  have hpmem := MemoryDisk.mem_proposals_of_staged? hstaged
  have hold : ∀ w ∈ (s.putStaged ⟨p.id, some q⟩).proposals, w = q ∨ w ∈ s.proposals :=
    fun w hw => (proposals_putStaged hw).imp_left fun hw => (Option.some.inj hw).symm
  refine ⟨hkept.files, ?_, ?_, ?_, ?_, hkept.transitions, ?_⟩
  · rintro d (hd | hd) w hw
    · rcases Table.mem_put.mp hd with rfl | ⟨hd, -⟩
      · cases hw
        exact hq.id
      · exact hkept.named d (.inl hd) w hw
    · exact hkept.named d (.inr hd) w hw
  · intro d hd e he
    rcases Table.mem_put.mp hd with rfl | ⟨hd, -⟩
    · exact hkept.apart _ hp e he
    · exact hkept.apart d hd e he
  · intro v hv w hw hid
    rcases hold v hv with rfl | hv' <;> rcases hold w hw with rfl | hw'
    · rfl
    · rw [hq.record] at hid
      exact hq.id.trans (hkept.sole p hpmem w hw' hid)
    · rw [hq.record] at hid
      exact (hkept.sole v hv' p hpmem hid).trans hq.id.symm
    · exact hkept.sole v hv' w hw' hid
  · intro w hw
    rcases hold w hw with rfl | hw
    · obtain ⟨hsources, hreferences, hsupersedes⟩ := hkept.asked p hpmem
      refine ⟨hq.record ▸ hsources, hq.record ▸ hreferences, ?_⟩
      rw [hq.record, hq.digest]
      exact hsupersedes
    · exact hkept.asked w hw
  · intro e he
    obtain ⟨w, hw, hid, hagrees, hstatus⟩ := hkept.published e he
    by_cases hwp : w.id = p.id
    · obtain rfl := hkept.eq_of_staged hstaged hw hwp
      refine ⟨q, MemoryDisk.mem_proposals_putStaged.mpr (.inl rfl), ?_, ?_, ?_⟩
      · rw [hq.id, hid]
      · simpa only [agrees, hq.record, hq.digest] using hagrees
      · intro hrejected
        have hnone := List.find?_eq_none.mp (hlive hrejected) e he
        exact hnone (by simp [hid])
    · obtain ⟨d, hd, hdw⟩ := MemoryDisk.mem_proposals.mp hw
      have hdid : d.id ≠ p.id := by
        rw [← hkept.named d hd w hdw]
        exact hwp
      refine ⟨w, MemoryDisk.mem_proposals_putStaged.mpr (.inr ⟨d, ?_, hdw⟩), hid, hagrees, hstatus⟩
      exact hd.imp (fun h => ⟨h, hdid⟩) fun h => h

/-- A directory moves to the history; it holds the same proposals. -/
theorem mem_proposals_archive {p : MemoryProposal} (hkept : MemoryKept store s)
    (hstaged : s.staged? p.id = some p) {w : MemoryProposal} :
    w ∈ (s.archive ⟨p.id, some p⟩).proposals ↔ w ∈ s.proposals := by
  have hp := MemoryDisk.mem_of_staged? hstaged
  rw [MemoryDisk.mem_proposals, MemoryDisk.mem_proposals]
  constructor
  · rintro ⟨d, hd | hd, hdw⟩
    · exact ⟨d, .inl (Table.mem_filter.mp hd).1, hdw⟩
    · rcases Table.mem_put.mp hd with rfl | ⟨hd, -⟩
      · exact ⟨_, .inl hp, hdw⟩
      · exact ⟨d, .inr hd, hdw⟩
  · rintro ⟨d, hd | hd, hdw⟩
    · by_cases hid : d.id = p.id
      · have heq := Table.eq_of_mem_key hd hp hid
        exact ⟨_, .inr (Table.mem_put_self _ _), heq ▸ hdw⟩
      · exact ⟨d, .inl (Table.mem_filter.mpr ⟨hd, by simpa using hid⟩), hdw⟩
    · exact ⟨d, .inr (Table.mem_put.mpr (.inr ⟨hd, (hkept.apart _ hp d hd).symm⟩)), hdw⟩

theorem MemoryKept.archive {p : MemoryProposal} (hkept : MemoryKept store s)
    (hstaged : s.staged? p.id = some p) : MemoryKept store (s.archive ⟨p.id, some p⟩) := by
  have hst : Standing store s (s.archive ⟨p.id, some p⟩) := .of_records rfl
  have hp := MemoryDisk.mem_of_staged? hstaged
  have hmem := fun w => mem_proposals_archive hkept hstaged (w := w)
  refine ⟨hkept.files, ?_, ?_, ?_, ?_, hkept.transitions, ?_⟩
  · rintro d (hd | hd) w hw
    · exact hkept.named d (.inl (Table.mem_filter.mp hd).1) w hw
    · rcases Table.mem_put.mp hd with rfl | ⟨hd, -⟩
      · exact hkept.named _ (.inl hp) w hw
      · exact hkept.named d (.inr hd) w hw
  · intro d hd e he
    obtain ⟨hd, hne⟩ := Table.mem_filter.mp hd
    rcases Table.mem_put.mp he with rfl | ⟨he, -⟩
    · simpa using hne
    · exact hkept.apart d hd e he
  · intro v hv w hw
    exact hkept.sole v ((hmem v).mp hv) w ((hmem w).mp hw)
  · exact fun w hw => Proposable.standing (hkept.asked w ((hmem w).mp hw)) hst
  · intro e he
    obtain ⟨w, hw, h⟩ := hkept.published e he
    exact ⟨w, (hmem w).mpr hw, h⟩

/-- A directory of a new proposal, with its document or without. -/
theorem MemoryKept.putNew {d : ProposalDirectory} (hkept : MemoryKept store s)
    (hfree : ∀ e ∈ s.staging, e.id = d.id → e.proposal = none)
    (hhistory : ∀ e ∈ s.history, d.id ≠ e.id) (hname : ∀ p ∈ d.proposal, p.id = d.id)
    (hfirst : ∀ p ∈ d.proposal, ∀ q ∈ s.proposals, q.record.id ≠ p.record.id)
    (hasks : ∀ p ∈ d.proposal, store.Proposable p s) : MemoryKept store (s.putStaged d) := by
  have hst : Standing store s (s.putStaged d) := .of_records rfl
  have hold : ∀ w ∈ (s.putStaged d).proposals, d.proposal = some w ∨ w ∈ s.proposals := by
    intro w hw
    rcases MemoryDisk.mem_proposals_putStaged.mp hw with hw | ⟨e, he, hw⟩
    · exact .inl hw
    · exact .inr (MemoryDisk.mem_proposals.mpr ⟨e, he.imp And.left fun h => h, hw⟩)
  refine ⟨hkept.files, ?_, ?_, ?_, ?_, hkept.transitions, ?_⟩
  · rintro e (he | he) w hw
    · rcases Table.mem_put.mp he with rfl | ⟨he, -⟩
      · exact hname w hw
      · exact hkept.named e (.inl he) w hw
    · exact hkept.named e (.inr he) w hw
  · intro c hc e he
    rcases Table.mem_put.mp hc with rfl | ⟨hc, -⟩
    · exact hhistory e he
    · exact hkept.apart c hc e he
  · intro v hv w hw hid
    rcases hold v hv with hv' | hv' <;> rcases hold w hw with hw' | hw'
    · rw [Option.some.inj (hv'.symm.trans hw')]
    · exact absurd hid.symm (hfirst v hv' w hw')
    · exact absurd hid (hfirst w hw' v hv')
    · exact hkept.sole v hv' w hw' hid
  · intro w hw
    rcases hold w hw with hw' | hw'
    · exact Proposable.standing (hasks w hw') hst
    · exact Proposable.standing (hkept.asked w hw') hst
  · intro e he
    obtain ⟨w, hw, h⟩ := hkept.published e he
    refine ⟨w, ?_, h⟩
    obtain ⟨c, hc, hcw⟩ := MemoryDisk.mem_proposals.mp hw
    refine MemoryDisk.mem_proposals_putStaged.mpr (.inr ⟨c, ?_, hcw⟩)
    rcases hc with hc | hc
    · refine .inl ⟨hc, fun hid => ?_⟩
      rw [hfree c hc hid] at hcw
      cases hcw
    · exact .inr hc

/-- The record of a written file is there, with another content at most. -/
theorem MemoryKept.holds_of_written {r : DurableMemoryRecord} (hkept : MemoryKept store s)
    (h : Written r s) : ∃ q, s.Holds q ∧ q.id = r.id ∧ q.supersedes = r.supersedes := by
  obtain ⟨file, hfile, hread | rfl⟩ := h
  · obtain ⟨q, rfl, hid, -⟩ := hkept.files _ _ hfile
    obtain ⟨hne, hr⟩ := parseRecord_eq_ok hread
    refine ⟨q, ?_, hid, by rw [hr]; rfl⟩
    unfold MemoryDisk.Holds
    rw [hid, hfile]
  · exact ⟨r, hfile, rfl, rfl⟩

theorem MemoryKept.putLifecycle {p : MemoryProposal} {i : MemoryId} {e : MemorySupersession}
    {document : MemoryLifecycleDocument} (hkept : MemoryKept store s)
    (hstaged : s.staged? p.id = some p) (hstatus : p.status ≠ .REJECTED)
    (hwritten : Written p.record s) (hi : p.record.supersedes = some i)
    (he : e.proposalId = p.id ∧ agrees e p) (hpredecessor : (s.file? i).isSome)
    (hdocument : document.supersessions = s.lifecycle.supersessions ++ [e]) :
    MemoryKept store (s.putLifecycle document) := by
  have hst : Standing store s (s.putLifecycle document) := .of_records rfl
  obtain ⟨hid, hagrees⟩ := he
  obtain ⟨hsuccessor, hpred, -⟩ := agrees_iff.mp hagrees
  have hpi : e.predecessor = i := Option.some.inj (hpred.trans hi)
  have hmem : ∀ d ∈ (s.putLifecycle document).lifecycle.supersessions,
      d ∈ s.lifecycle.supersessions ∨ d = e := by
    intro d hd
    have hd' : d ∈ s.lifecycle.supersessions ++ [e] := hdocument ▸ hd
    simpa using hd'
  refine ⟨hkept.files, hkept.named, hkept.apart, hkept.sole,
    fun w hw => Proposable.standing (hkept.asked w hw) hst, fun d hd => ?_, fun d hd => ?_⟩
  · rcases hmem d hd with hd | rfl
    · exact hkept.transitions d hd
    · obtain ⟨q, hq, hqid, hqs⟩ := hkept.holds_of_written hwritten
      exact ⟨hpi ▸ hpredecessor, q, hq, hqid.trans hsuccessor.symm, by rw [hqs, hi, hpi]⟩
  · rcases hmem d hd with hd | rfl
    · exact hkept.published d hd
    · exact ⟨p, MemoryDisk.mem_proposals_of_staged? hstaged, hid.symm, hagrees, hstatus⟩

/-- Every file step keeps what the memory files keep. -/
theorem MemoryKept.move (hkept : MemoryKept store s) (h : MemoryMove store op start s t) :
    MemoryKept store t := by
  have hst := h.standing hkept
  cases h with
  | stored r horigin hsources hnew => exact hkept.putRecord hst hsources
  | reverified r updated hread hsources hsame =>
    rw [← hsame.id] at hst ⊢
    refine hkept.putRecord hst ?_
    rwa [validateSources_congr hsame.paths]
  | opened i hop hstaging hhistory =>
    have hnone : ∀ {l : Table ProposalDirectory.id}, l.has i = false → ∀ e ∈ l, e.id ≠ i := by
      intro l hl
      exact Table.get?_eq_none.mp (by simpa [Table.has] using hl)
    exact hkept.putNew (fun e he hid => absurd hid (hnone hstaging e he))
      (fun e he hid => hnone hhistory e he hid.symm) (by simp) (by simp) (by simp)
  | proposed p hop hopen hpending hnew hfirst hasks =>
    have hdir := Table.mem_of_get? hopen
    refine hkept.putNew (fun e he hid => ?_) (fun e he => hkept.apart _ hdir e he)
      (by simp) (by simpa using hfirst) (by simpa using hasks)
    rw [Table.eq_of_mem_key he hdir hid]
  | published p i e document hop hstaged hstatus hwritten hi he hpredecessor hdocument =>
    obtain ⟨q, hq⟩ := hpredecessor
    obtain ⟨file, hfile, -⟩ := lookup_eq_ok.mp hq
    exact hkept.putLifecycle hstaged hstatus hwritten hi he (by simp [hfile]) hdocument
  | approved p q hop hstaged hstatus hwritten hactivated hq happroved =>
    exact hkept.putStaged hstaged hq fun h => by rw [happroved] at h; cases h
  | rejected p q hop hstaged hstatus hunpublished hq hrejected =>
    exact hkept.putStaged hstaged hq fun _ => hunpublished
  | archived p hstaged hstatus => exact hkept.archive hstaged

end MemoryKept

/-! ## Runs -/

/-- One operation of the store, wherever it ends or is stopped. -/
def MemoryStep (store : CuratedMemoryStore) (s t : MemoryDisk) : Prop :=
  ∃ op : MemoryOperation, op.Leaves store s t

section Runs

variable {store : CuratedMemoryStore} {op : MemoryOperation} {s t : MemoryDisk}

theorem kept_empty : MemoryKept store {} := by
  have hnone : ∀ d : ProposalDirectory, d ∉ (Table.empty : Table ProposalDirectory.id) := by
    intro d hd
    cases hd
  have hproposals : ∀ p : MemoryProposal, p ∉ ({} : MemoryDisk).proposals := by
    intro p hp
    cases hp
  have htransitions : ∀ e, e ∉ ({} : MemoryDisk).lifecycle.supersessions := by
    intro e he
    cases he
  refine ⟨?_, ?_, fun d hd => absurd hd (hnone d), fun p hp => absurd hp (hproposals p),
    fun p hp => absurd hp (hproposals p), fun e he => absurd he (htransitions e),
    fun e he => absurd he (htransitions e)⟩
  · intro i file h
    cases h
  rintro d (hd | hd)
  · exact absurd hd (hnone d)
  · exact absurd hd (hnone d)

theorem MemoryKept.leaves (hkept : MemoryKept store s) (h : op.Leaves store s t) :
    MemoryKept store t :=
  System.Preserved.run (fun _ _ hs hmove => MemoryKept.move hs hmove) (h.moves hkept.named) hkept

/-- Whatever operations did, and wherever they were stopped, the files keep the invariant. -/
theorem kept_of_run (h : ReflTransGen (MemoryStep store) {} s) : MemoryKept store s :=
  System.Preserved.run (fun _ _ hs ⟨_, hop⟩ => MemoryKept.leaves hs hop) h kept_empty

end Runs

/-! ## What a store holds -/

namespace MemoryDisk

/-- The state a record of the disk is in. -/
def state (s : MemoryDisk) (r : DurableMemoryRecord) : MemoryLifecycle :=
  (lifecycleState r s.lifecycle).1

/-- There is an active record of a name. -/
def Active (s : MemoryDisk) (i : MemoryId) : Prop := ∃ r, s.Reads i r ∧ s.state r = .ACTIVE

/-- A transition from one record to another is published. -/
def Supersedes (s : MemoryDisk) (i j : MemoryId) : Prop :=
  Walk.Arrow (arrows s.lifecycle.supersessions) i j

/-- Every record file can be read. -/
def Readable (s : MemoryDisk) : Prop := ∀ i, (s.file? i).isSome → ∃ r, s.Reads i r

end MemoryDisk

section Reading

variable {store : CuratedMemoryStore} {s : MemoryDisk} {i j : MemoryId}
  {r : DurableMemoryRecord}

theorem MemoryDisk.supersedes_iff :
    s.Supersedes i j ↔ ∃ e ∈ s.lifecycle.supersessions, e.predecessor = i ∧ e.successor = j := by
  simp only [MemoryDisk.Supersedes, Walk.Arrow, arrows, List.mem_map, Prod.mk.injEq]

/-- A read record has the name of its file, and is inside the project. -/
theorem MemoryKept.of_reads (hkept : MemoryKept store s) (h : s.Reads i r) :
    r.id = i ∧ store.validateSources r = .ok () ∧
      ∃ q, s.Holds q ∧ q.id = i ∧ q.supersedes = r.supersedes := by
  obtain ⟨file, hfile, hread⟩ := h
  obtain ⟨q, rfl, hid, hsources⟩ := hkept.files _ _ hfile
  obtain ⟨hne, hr⟩ := parseRecord_eq_ok hread
  subst hr
  refine ⟨hid, hsources, q, ?_, hid, rfl⟩
  unfold MemoryDisk.Holds
  rw [hid, hfile]

theorem MemoryDisk.Reads.unique {q : DurableMemoryRecord} (hr : s.Reads i r) (hq : s.Reads i q) :
    r = q := by
  obtain ⟨file, hfile, hread⟩ := hr
  obtain ⟨file', hfile', hread'⟩ := hq
  rw [hfile] at hfile'
  obtain rfl := Option.some.inj hfile'
  exact Except.ok.inj (hread.symm.trans hread')

/-- What a record of a name supersedes does not depend on how it is looked at. -/
theorem MemoryDisk.Reads.supersedes {q : DurableMemoryRecord} (hr : s.Reads i r) (hq : s.Holds q)
    (hid : q.id = i) : r.supersedes = q.supersedes := by
  obtain ⟨file, hfile, hread⟩ := hr
  unfold MemoryDisk.Holds at hq
  rw [hid, hfile] at hq
  rw [Option.some.inj hq] at hread
  obtain ⟨hne, rfl⟩ := parseRecord_eq_ok hread
  rfl

/-- An active record has no successor, and what it supersedes is published. -/
theorem MemoryDisk.state_eq_active : s.state r = .ACTIVE ↔
    (∀ j, ¬ s.Supersedes r.id j) ∧ ∀ p, r.supersedes = some p → s.Supersedes p r.id := by
  unfold MemoryDisk.state lifecycleState
  simp only [MemoryDisk.supersedes_iff]
  cases hfind : s.lifecycle.supersessions.find? (fun e => e.predecessor = r.id) with
  | some e =>
    have hmem := List.mem_of_find?_eq_some hfind
    have hkey : e.predecessor = r.id := by simpa using List.find?_some hfind
    simp only [reduceCtorEq, false_iff, not_and]
    intro h
    exact absurd ⟨e, hmem, hkey, rfl⟩ (h e.successor)
  | none =>
    have hnone : ∀ e ∈ s.lifecycle.supersessions, e.predecessor ≠ r.id := by
      simpa using hfind
    have hfirst : ∀ j, ¬ ∃ e ∈ s.lifecycle.supersessions,
        e.predecessor = r.id ∧ e.successor = j := by
      rintro j ⟨e, he, hkey, -⟩
      exact hnone e he hkey
    cases hs : r.supersedes with
    | none => simp [hfirst]
    | some p =>
      simp only [hfirst, not_false_eq_true, implies_true, true_and, Option.some.injEq,
        forall_eq']
      split
      · next h => simpa using h
      · next h => simpa using h

theorem MemoryKept.reads_active_iff (hkept : MemoryKept store s) (hr : s.Reads i r) :
    s.state r = .ACTIVE ↔
      (∀ j, ¬ s.Supersedes i j) ∧ ∀ p, r.supersedes = some p → s.Supersedes p i := by
  rw [MemoryDisk.state_eq_active, (hkept.of_reads hr).1]

/-- A record is active when it can be read, has no successor, and what it supersedes is
published. -/
theorem MemoryKept.active_iff (hkept : MemoryKept store s) : s.Active i ↔
    ∃ r, s.Reads i r ∧ (∀ j, ¬ s.Supersedes i j) ∧
      ∀ p, r.supersedes = some p → s.Supersedes p i :=
  exists_congr fun _ => and_congr_right fun hr => hkept.reads_active_iff hr

/-- A transition to the record of a proposal is the one the proposal asked for. -/
theorem MemoryKept.agrees_of_successor {p : MemoryProposal} {e : MemorySupersession}
    (hkept : MemoryKept store s) (hp : p ∈ s.proposals) (he : e ∈ s.lifecycle.supersessions)
    (hsuccessor : e.successor = p.record.id) : e.proposalId = p.id ∧ agrees e p := by
  obtain ⟨w, hw, hid, hagrees, -⟩ := hkept.published e he
  have hwp : w.record.id = p.record.id := by
    rw [← (agrees_iff.mp hagrees).1, hsuccessor]
  have heq : w = p := hkept.eq_of_id hw hp (hkept.sole w hw p hp hwp)
  exact ⟨by rw [← hid, heq], heq ▸ hagrees⟩

/-! ## Listing -/

theorem mapM_ok_of_all {α β : Type} {f : α → Except Error β} {l : List α}
    (h : ∀ a ∈ l, ∃ b, f a = .ok b) : ∃ bs, l.mapM f = .ok bs := by
  induction l with
  | nil => exact ⟨[], rfl⟩
  | cons a l ih =>
    obtain ⟨b, hb⟩ := h a List.mem_cons_self
    obtain ⟨bs, hbs⟩ := ih fun c hc => h c (List.mem_cons_of_mem _ hc)
    exact ⟨b :: bs, by rw [List.mapM_cons, hb, hbs]; rfl⟩

/-- The answers of a loop that went through, and any key they have in common with the
items. -/
theorem of_mapM_eq_ok {α β κ : Type} {f : α → Except Error β} {l : List α} {bs : List β}
    (h : l.mapM f = .ok bs) (key : α → κ) (key' : β → κ)
    (hkey : ∀ a ∈ l, ∀ b, f a = .ok b → key' b = key a) :
    (∀ b, b ∈ bs ↔ ∃ a ∈ l, f a = .ok b) ∧ bs.map key' = l.map key := by
  induction l generalizing bs with
  | nil =>
    obtain rfl : [] = bs := Except.ok.inj h
    simp
  | cons a l ih =>
    rw [List.mapM_cons] at h
    cases ha : f a with
    | error e =>
      rw [ha] at h
      cases h
    | ok b =>
      cases hl : l.mapM f with
      | error e =>
        rw [ha, hl] at h
        cases h
      | ok cs =>
        rw [ha, hl] at h
        obtain rfl : b :: cs = bs := Except.ok.inj h
        obtain ⟨hmem, hmap⟩ := ih hl fun c hc => hkey c (List.mem_cons_of_mem _ hc)
        refine ⟨fun d => ?_, ?_⟩
        · simp [hmem, ha, eq_comm]
        · rw [List.map_cons, List.map_cons, hmap, hkey a List.mem_cons_self b ha]

theorem mapM_error_of_mem {α β : Type} {f : α → Except Error β} {l : List α} {a : α} (ha : a ∈ l)
    (h : ∀ b, f a ≠ .ok b) : ∃ e, l.mapM f = .error e := by
  induction l with
  | nil => cases ha
  | cons c l ih =>
    rw [List.mapM_cons]
    cases hc : f c with
    | error e => exact ⟨e, rfl⟩
    | ok b =>
      rcases List.mem_cons.mp ha with rfl | ha
      · exact absurd hc (h b)
      · obtain ⟨e, he⟩ := ih ha
        exact ⟨e, by rw [he]; rfl⟩

theorem forM_ok_of_all {α : Type} {f : α → Except Error Unit} {l : List α}
    (h : ∀ a ∈ l, f a = .ok ()) : l.forM f = .ok () := by
  induction l with
  | nil => rfl
  | cons a l ih =>
    have hrest := ih fun c hc => h c (List.mem_cons_of_mem _ hc)
    show (f a >>= fun _ => l.forM f) = _
    rw [h a List.mem_cons_self, hrest]
    rfl

theorem mem_sortedFiles {f : MemoryId × List Char} :
    f ∈ sortedFiles s ↔ s.file? f.1 = some f.2 := by
  rw [sortedFiles, List.mem_insertionSort]
  constructor
  · intro h
    have hget : s.records.get? f.1 = some f := Table.get?_of_mem h
    simp [MemoryDisk.file?, hget]
  · intro h
    obtain ⟨g, hg, hfile⟩ := Option.map_eq_some_iff.mp h
    have hkey : g.1 = f.1 := Table.key_of_get? hg
    have hfg : g = f := Prod.ext hkey hfile
    exact hfg ▸ Table.mem_of_get? hg

/-- A file that cannot be read keeps the whole store from being listed. -/
theorem list_error (store : CuratedMemoryStore) {file : List Char} (hfile : s.file? i = some file)
    (hbad : ∀ r, parseRecord (fileName i) file ≠ .ok r) (includeInactive : Bool) :
    ∃ e, store.list includeInactive s = .error e := by
  have hmem : (i, file) ∈ sortedFiles s := mem_sortedFiles.mpr hfile
  obtain ⟨e, he⟩ := mapM_error_of_mem
    (f := fun f : MemoryId × List Char => parseRecord (fileName f.1) f.2) hmem hbad
  exact ⟨e, by unfold list; rw [he]; rfl⟩

/-- A store that can be listed has no file that cannot be read. -/
theorem readable_of_list {includeInactive : Bool} {rs : List DurableMemoryRecord}
    (h : store.list includeInactive s = .ok rs) : s.Readable := by
  intro i hi
  obtain ⟨file, hfile⟩ := Option.isSome_iff_exists.mp hi
  cases hread : parseRecord (fileName i) file with
  | ok q => exact ⟨q, file, hfile, hread⟩
  | error e =>
    obtain ⟨e', he'⟩ := list_error store hfile
      (fun q hq => by rw [hread] at hq; cases hq) includeInactive
    rw [h] at he'
    cases he'

/-- When every file can be read, listing answers the records that are read: all of them, or
the active ones. -/
theorem MemoryKept.list (hkept : MemoryKept store s) (hreadable : s.Readable)
    (includeInactive : Bool) :
    ∃ rs, store.list includeInactive s = .ok rs ∧
      ∀ r, r ∈ rs ↔ s.Reads r.id r ∧ (includeInactive ∨ s.state r = .ACTIVE) := by
  obtain ⟨rs, hrs⟩ := mapM_ok_of_all (l := sortedFiles s)
    (f := fun f : MemoryId × List Char => parseRecord (fileName f.1) f.2) (by
      intro f hf
      have hfile := mem_sortedFiles.mp hf
      obtain ⟨r, file, hfile', hread⟩ := hreadable f.1 (by simp [hfile])
      rw [hfile] at hfile'
      exact ⟨r, by rw [Option.some.inj hfile']; exact hread⟩)
  obtain ⟨hmem, hids⟩ := of_mapM_eq_ok hrs Prod.fst DurableMemoryRecord.id (by
    intro f hf r hread
    exact (hkept.of_reads ⟨f.2, mem_sortedFiles.mp hf, hread⟩).1)
  have hreads : ∀ r, r ∈ rs ↔ s.Reads r.id r := by
    intro r
    rw [hmem]
    constructor
    · rintro ⟨f, hf, hread⟩
      have hr : s.Reads f.1 r := ⟨f.2, mem_sortedFiles.mp hf, hread⟩
      rw [(hkept.of_reads hr).1]
      exact hr
    · rintro ⟨file, hfile, hread⟩
      exact ⟨(r.id, file), mem_sortedFiles.mpr hfile, hread⟩
  have hnodup : (rs.map DurableMemoryRecord.id).Nodup := by
    rw [hids]
    exact ((List.perm_insertionSort _ s.records.entries).map Prod.fst).nodup_iff.mpr
      s.records.nodup
  have hsources : rs.forM store.validateSources = .ok () :=
    forM_ok_of_all fun r hr => (hkept.of_reads ((hreads r).mp hr)).2.1
  have hfind : ∀ {i : MemoryId}, (s.file? i).isSome →
      ∃ r, rs.find? (fun r => r.id = i) = some r ∧ s.Reads i r := by
    intro i hi
    obtain ⟨q, hq⟩ := hreadable i hi
    have hqid := (hkept.of_reads hq).1
    have hqmem : q ∈ rs := (hreads q).mpr (by rw [hqid]; exact hq)
    obtain ⟨r, hr⟩ : ∃ r, rs.find? (fun r => r.id = i) = some r := by
      rw [← Option.isSome_iff_exists, List.find?_isSome]
      exact ⟨q, hqmem, by simpa using hqid⟩
    have hrid : r.id = i := by simpa using List.find?_some hr
    exact ⟨r, hr, hrid ▸ (hreads r).mp (List.mem_of_find?_eq_some hr)⟩
  have htransitions : s.lifecycle.supersessions.forM (checkTransition rs) = .ok () := by
    refine forM_ok_of_all fun e he => ?_
    obtain ⟨hpredecessor, q, hq, hqid, hsupersedes⟩ := hkept.transitions e he
    obtain ⟨p, hp, -⟩ := hfind hpredecessor
    unfold MemoryDisk.Holds at hq
    obtain ⟨r, hr, hread⟩ := hfind (i := e.successor) (by rw [← hqid, hq]; rfl)
    have hrs' : r.supersedes = some e.predecessor := by
      rw [hread.supersedes hq hqid, hsupersedes]
    simp [checkTransition, hp, hr, hrs']
  refine ⟨rs.filter fun r => includeInactive || (lifecycleState r s.lifecycle).1 = .ACTIVE, ?_, ?_⟩
  · unfold CuratedMemoryStore.list
    rw [hrs]
    simp only [bind, Except.bind, hnodup, not_true_eq_false, if_false, hsources, htransitions]
    rfl
  · intro r
    rw [List.mem_filter, hreads r]
    simp [MemoryDisk.state]

end Reading

end Orqalis
