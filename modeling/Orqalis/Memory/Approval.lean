import Orqalis.Memory.Rejection

/-!
# Resuming an approval

An approval takes four file steps: the record, its transition, the decision and the move to
the history. Whatever a stop and other operations left, the approval is called again.
`approve_resumes_iff` says when that keeps what an approval owes: to be completed with its
record active, or, only before its transition is published, to be refused because the
predecessor changed.

What comes in its way is the record, which is visible from the first step on. A second
approval compares its file with the staged record, so it fails for good once a revalidation
wrote that file again, and when the file loses something of the record
(`sampleHalf_stuck`).
-/

namespace Orqalis

open Lib Lib.Crash Relation CuratedMemoryStore

/-! ## What approvals leave -/

/-- An approved proposal has its record, and the transition it asked for. -/
def ApprovedHeld (s : MemoryDisk) : Prop :=
  ∀ p ∈ s.proposals, p.status = .APPROVED →
    (∃ r, s.Holds r ∧ r.id = p.record.id ∧ r.supersedes = p.record.supersedes) ∧
      (p.record.supersedes.isSome → ∃ e ∈ s.lifecycle.supersessions, agrees e p)

/-- A proposal that can be approved, or that was approved and is in the history. -/
def MemoryDisk.Live (s : MemoryDisk) (p : MemoryProposal) : Prop :=
  s.staged? p.id = some p ∧ p.status ≠ .REJECTED ∨ s.reviewed? p.id = some p ∧ p.status = .APPROVED

namespace MemoryDisk

theorem staged?_putStaged_ne (s : MemoryDisk) {d : ProposalDirectory} {i : ProposalId}
    (h : d.id ≠ i) : (s.putStaged d).staged? i = s.staged? i := by
  have hget : (s.staging.put d).get? i = s.staging.get? i := s.staging.get?_put_ne h
  simp only [staged?, putStaged, hget]

theorem staged?_archive_ne (s : MemoryDisk) {d : ProposalDirectory} {i : ProposalId}
    (h : d.id ≠ i) : (s.archive d).staged? i = s.staged? i := by
  have hget : (s.staging.filter fun e => e.id ≠ d.id).get? i = s.staging.get? i := by
    refine Option.ext fun e => ?_
    rw [Table.get?_filter, and_iff_left_iff_imp]
    intro he
    have hkey := Table.key_of_get? he
    simpa [hkey] using Ne.symm h
  simp only [staged?, archive, hget]

theorem reviewed?_archive_self (s : MemoryDisk) (d : ProposalDirectory) :
    (s.archive d).reviewed? d.id = d.proposal := by
  simp [reviewed?, archive]

theorem reviewed?_archive_ne (s : MemoryDisk) {d : ProposalDirectory} {i : ProposalId}
    (h : d.id ≠ i) : (s.archive d).reviewed? i = s.reviewed? i := by
  have hget : (s.history.put d).get? i = s.history.get? i := s.history.get?_put_ne h
  simp only [reviewed?, archive, hget]

theorem mem_of_reviewed? {s : MemoryDisk} {id : ProposalId} {p : MemoryProposal}
    (h : s.reviewed? id = some p) : ⟨id, some p⟩ ∈ s.history := by
  obtain ⟨d, hd, hp⟩ := Option.bind_eq_some_iff.mp h
  have hkey := Table.key_of_get? hd
  have hmem := Table.mem_of_get? hd
  cases d
  cases hkey
  cases hp
  exact hmem

theorem Live.mem_proposals {s : MemoryDisk} {p : MemoryProposal} (h : s.Live p) :
    p ∈ s.proposals := by
  rcases h with ⟨h, -⟩ | ⟨h, -⟩
  · exact mem_proposals_of_staged? h
  · exact MemoryDisk.mem_proposals.mpr ⟨_, .inr (mem_of_reviewed? h), rfl⟩

end MemoryDisk

/-- The operation does not reject a proposal. -/
def MemoryOperation.Spares (op : MemoryOperation) (i : ProposalId) : Prop :=
  ∀ reason now, op ≠ .reject i reason now

section Moves

variable {store : CuratedMemoryStore} {op : MemoryOperation} {start s t : MemoryDisk}

/-- A proposal in the history has no directory in the staging area. -/
theorem MemoryKept.not_staged {p : MemoryProposal} {i : ProposalId} (hkept : MemoryKept store s)
    (h : s.reviewed? i = some p) : ∀ d ∈ s.staging, d.id ≠ i :=
  fun d hd => hkept.apart d hd _ (MemoryDisk.mem_of_reviewed? h)

theorem MemoryKept.staged?_eq_none {p : MemoryProposal} {i : ProposalId}
    (hkept : MemoryKept store s) (h : s.reviewed? i = some p) : s.staged? i = none := by
  have hget := Table.get?_eq_none.mpr (hkept.not_staged h)
  simp [MemoryDisk.staged?, hget]

/-- A file step keeps the records and transitions of approved proposals. -/
theorem ApprovedHeld.move (hkept : MemoryKept store s) (hheld : ApprovedHeld s)
    (h : MemoryMove store op start s t) : ApprovedHeld t := by
  have hst := h.standing hkept
  have hold : ∀ p ∈ s.proposals, p.status = .APPROVED →
      (∀ e ∈ s.lifecycle.supersessions, e ∈ t.lifecycle.supersessions) →
      (∃ r, t.Holds r ∧ r.id = p.record.id ∧ r.supersedes = p.record.supersedes) ∧
        (p.record.supersedes.isSome → ∃ e ∈ t.lifecycle.supersessions, agrees e p) := by
    intro p hp happroved hgrows
    obtain ⟨⟨r, hr, hid, hsupersedes⟩, htransition⟩ := hheld p hp happroved
    obtain ⟨q, hq, hqid, hqs⟩ := hst.record r hr
    refine ⟨⟨q, hq, hqid.trans hid, hqs.trans hsupersedes⟩, fun hsome => ?_⟩
    obtain ⟨e, he, hagrees⟩ := htransition hsome
    exact ⟨e, hgrows e he, hagrees⟩
  cases h with
  | stored | reverified => exact fun p hp happroved => hold p hp happroved fun _ he => he
  | opened i hop hstaging hhistory =>
    intro p hp happroved
    rcases proposals_putStaged hp with hp | hp
    · cases hp
    · exact hold p hp happroved fun _ he => he
  | proposed p hop hopen hpending hnew hfirst hasks =>
    intro q hq happroved
    rcases proposals_putStaged hq with hq | hq
    · cases hq
      rw [hpending] at happroved
      cases happroved
    · exact hold q hq happroved fun _ he => he
  | published p i e document hop hstaged hstatus hwritten hi he hpredecessor hdocument =>
    intro q hq happroved
    refine hold q hq happroved fun d hd => ?_
    show d ∈ document.supersessions
    rw [hdocument]
    exact List.mem_append_left _ hd
  | approved p q hop hstaged hstatus hwritten hactivated hq happroved =>
    intro w hw hw'
    rcases proposals_putStaged hw with hw | hw
    · cases hw
      rw [hq.record]
      refine ⟨hkept.holds_of_written hwritten, fun hsome => ?_⟩
      obtain ⟨e, he, hagrees⟩ := hactivated hsome
      exact ⟨e, he, by simpa only [agrees, hq.record, hq.digest] using hagrees⟩
    · exact hold w hw hw' fun _ he => he
  | rejected p q hop hstaged hstatus hunpublished hq hrejected =>
    intro w hw hw'
    rcases proposals_putStaged hw with hw | hw
    · cases hw
      rw [hrejected] at hw'
      cases hw'
    · exact hold w hw hw' fun _ he => he
  | archived p hstaged hstatus =>
    intro w hw happroved
    exact hold w ((mem_proposals_archive hkept hstaged).mp hw) happroved fun _ he => he

/-- A file step of an operation that does not reject a live proposal leaves it live. -/
theorem MemoryMove.live (hkept : MemoryKept store s) {p : MemoryProposal}
    (hspared : ∀ w, op.Rejects start w → w.id ≠ p.id)
    (hlive : ∃ q : MemoryProposal, q.SameProposal p ∧ s.Live q)
    (h : MemoryMove store op start s t) : ∃ q : MemoryProposal, q.SameProposal p ∧ t.Live q := by
  obtain ⟨q, hqp, hlive⟩ := hlive
  -- Writing a directory of another identity changes neither place of the proposal.
  have hother : ∀ d : ProposalDirectory, d.id ≠ q.id → (s.putStaged d).Live q := by
    intro d hd
    rcases hlive with ⟨hstaged, hstatus⟩ | hreviewed
    · exact .inl ⟨by rw [s.staged?_putStaged_ne hd, hstaged], hstatus⟩
    · exact .inr hreviewed
  have hsame : ∀ w : MemoryProposal, s.staged? w.id = some w → w.id = q.id → w = q :=
    fun w hw hid => (hkept.eq_of_staged hw hlive.mem_proposals hid.symm).symm
  cases h with
  | stored | reverified | published => exact ⟨q, hqp, hlive⟩
  | opened i hop hstaging hhistory =>
    refine ⟨q, hqp, hother _ ?_⟩
    rintro rfl
    rcases hlive with ⟨hstaged, -⟩ | ⟨hreviewed, -⟩
    · have hmem := Table.get?_of_mem (MemoryDisk.mem_of_staged? hstaged)
      simp [Table.has, hmem] at hstaging
    · have hmem := Table.get?_of_mem (MemoryDisk.mem_of_reviewed? hreviewed)
      simp [Table.has, hmem] at hhistory
  | proposed w hop hopen hpending hnew hfirst hasks =>
    refine ⟨q, hqp, hother _ fun hid => ?_⟩
    have hdir := Table.mem_of_get? hopen
    rcases hlive with ⟨hstaged, -⟩ | ⟨hreviewed, -⟩
    · have heq := Table.eq_of_mem_key hdir (MemoryDisk.mem_of_staged? hstaged) hid
      exact absurd (congrArg ProposalDirectory.proposal heq) (by simp)
    · exact hkept.not_staged hreviewed _ hdir hid
  | approved w v hop hstaged hstatus hwritten hactivated hv happroved =>
    by_cases hid : w.id = q.id
    · obtain rfl := hsame w hstaged hid
      refine ⟨v, ⟨hv.id.trans hqp.id, hv.record.trans hqp.record, hv.digest.trans hqp.digest⟩,
        .inl ⟨?_, by rw [happroved]; simp⟩⟩
      rw [hv.id]
      exact MemoryDisk.staged?_putStaged_self s ⟨w.id, some v⟩
    · exact ⟨q, hqp, hother _ hid⟩
  | rejected w v hop hstaged hstatus hunpublished hv hrejected =>
    exact ⟨q, hqp, hother _ fun hid => hspared w hop (hid.trans hqp.id)⟩
  | archived w hstaged hstatus =>
    refine ⟨q, hqp, ?_⟩
    by_cases hid : w.id = q.id
    · obtain rfl := hsame w hstaged hid
      rcases hlive with ⟨-, hlive⟩ | ⟨hreviewed, -⟩
      · refine .inr ⟨MemoryDisk.reviewed?_archive_self s ⟨w.id, some w⟩, ?_⟩
        cases hw : w.status <;> simp_all
      · exact absurd rfl (hkept.not_staged hreviewed _ (MemoryDisk.mem_of_staged? hstaged))
    · rcases hlive with ⟨hstaged', hstatus'⟩ | ⟨hreviewed, happroved⟩
      · exact .inl ⟨by rw [s.staged?_archive_ne hid, hstaged'], hstatus'⟩
      · exact .inr ⟨by rw [s.reviewed?_archive_ne hid, hreviewed], happroved⟩

end Moves

/-! ## Running an approval -/

namespace CuratedMemoryStore

/-- The transition of a proposal is not published, and its predecessor is no longer active
or no longer as it was proposed. -/
def Outdated (store : CuratedMemoryStore) (s : MemoryDisk) (p : MemoryProposal) : Prop :=
  published s.lifecycle p.id = none ∧
    ∃ i q, p.record.supersedes = some i ∧ store.lookup i s = .ok q ∧
      (p.predecessorDigest ≠ some (store.sha256 (frontmatter q)) ∨ s.state q ≠ .ACTIVE)

/-- A save of the record goes through and leaves a file that can be read. -/
structure Keepable (store : CuratedMemoryStore) (s : MemoryDisk) (r : DurableMemoryRecord) :
    Prop where
  safe : store.ensureRecordSafe r [] = .ok ()
  kept : s.file? r.id = none ∧ r.Storable ∨ s.Reads r.id r

section Running

variable {store : CuratedMemoryStore} {s t u : MemoryDisk} {p : MemoryProposal}
  {r q : DurableMemoryRecord} {i : MemoryId} {reason : List Char} {now : Time}

theorem run_checkPredecessor_changed (hq : store.lookup i s = .ok q)
    (h : p.predecessorDigest ≠ some (store.sha256 (frontmatter q)) ∨ s.state q ≠ .ACTIVE) :
    (store.checkPredecessor p i).run s = ⟨[], .error (.conflict
      "Superseded memory changed after proposal; stage a new proposal"), s⟩ := by
  unfold checkPredecessor
  unfold MemoryDisk.state at h
  rw [Prog.run_bind_of_ok (by rw [run_get, hq]), Prog.run_bind_of_ok (a := s.lifecycle) rfl,
    if_pos h]
  rfl

theorem run_checkPredecessor (hq : store.lookup i s = .ok q)
    (h : ¬ (p.predecessorDigest ≠ some (store.sha256 (frontmatter q)) ∨ s.state q ≠ .ACTIVE)) :
    (store.checkPredecessor p i).run s = ⟨[], .ok ⟨⟩, s⟩ := by
  unfold checkPredecessor
  unfold MemoryDisk.state at h
  rw [Prog.run_bind_of_ok (by rw [run_get, hq]), Prog.run_bind_of_ok (a := s.lifecycle) rfl,
    if_neg h]
  rfl

/-- A save changes record files only. -/
theorem ends_save (hsavable : Savable store s r) (h : Keepable store s r) :
    ∃ u, Ends (store.save r) s (.ok ⟨⟩) u ∧ u.staging = s.staging ∧ u.history = s.history ∧
      u.lifecycle = s.lifecycle ∧ ∃ q, u.Reads r.id q ∧ q.supersedes = r.supersedes := by
  rcases h.kept with ⟨hnew, hstorable⟩ | hread
  · refine ⟨_, ends_of_run (run_save_new hsavable hnew), rfl, rfl, rfl,
      r.withContent _ hstorable, ⟨frontmatter r, MemoryDisk.file?_putRecord_self _ _ _, ?_⟩, rfl⟩
    exact parseRecord_ok _ hstorable
  · exact ⟨s, ends_of_run (run_save_stored hsavable hread), rfl, rfl, rfl, r, hread, rfl⟩

/-- A save that went through and left a file that can be read. -/
theorem of_ends_save (h : Ends (store.save r) s (.ok ⟨⟩) u) (hread : ∃ q, u.Reads r.id q) :
    Keepable store s r ∧ u.lifecycle = s.lifecycle := by
  obtain ⟨hvalue, hdisk⟩ := h
  obtain ⟨hsavable, hnew | hstored⟩ := savable_of_ok hvalue
  · rw [run_save_new hsavable hnew] at hdisk
    subst hdisk
    obtain ⟨q, file, hfile, hparse⟩ := hread
    rw [MemoryDisk.file?_putRecord_self] at hfile
    rw [← Option.some.inj hfile] at hparse
    obtain ⟨hstorable, -⟩ := parseRecord_eq_ok hparse
    exact ⟨⟨hsavable.safe, .inl ⟨hnew, hstorable⟩⟩, rfl⟩
  · rw [run_save_stored hsavable hstored] at hdisk
    subst hdisk
    exact ⟨⟨hsavable.safe, .inr hstored⟩, rfl⟩

/-- Publishing a transition keeps the records and the transitions before it. -/
theorem of_ends_publish (h : Ends (publish p i reason now) s (.ok ⟨⟩) u) :
    u.records = s.records ∧ ∀ j k, s.Supersedes j k → u.Supersedes j k := by
  unfold publish at h
  cases hdigest : p.predecessorDigest with
  | none =>
    rw [hdigest] at h
    cases h.1
  | some digest =>
    rw [hdigest] at h
    obtain ⟨_, _, ⟨⟨⟩, rfl⟩, h⟩ := h.of_bind
    obtain ⟨document, v, hlift, -, rfl⟩ := h.of_bind
    unfold Ends at hlift
    rw [run_lift] at hlift
    obtain ⟨hdocument, rfl⟩ := hlift
    refine ⟨rfl, fun j k hjk => ?_⟩
    obtain ⟨e, he, hends⟩ := MemoryDisk.supersedes_iff.mp hjk
    refine MemoryDisk.supersedes_iff.mpr ⟨e, ?_, hends⟩
    show e ∈ document.supersessions
    rw [construct_eq_ok hdocument]
    exact List.mem_append_left _ he

/-- A transition from an active record to one that has none is accepted. -/
theorem construct_ok {l : List MemorySupersession} (hvalid : validTransitions l)
    {e : MemorySupersession} (hne : e.predecessor ≠ e.successor)
    (hfirst : ∀ d ∈ l, d.predecessor ≠ e.predecessor)
    (hsuccessor : ∀ d ∈ l, d.successor ≠ e.successor)
    (hlast : ∀ d ∈ l, d.predecessor ≠ e.successor) :
    ∃ document, MemoryLifecycleDocument.construct (l ++ [e]) = .ok document ∧
      document.supersessions = l ++ [e] := by
  simp only [validTransitions, Bool.and_eq_true, decide_eq_true_eq] at hvalid
  obtain ⟨⟨hpredecessors, hsuccessors⟩, hacyclic⟩ := hvalid
  have hadd : ∀ {f : MemorySupersession → MemoryId}, (l.map f).Nodup → (∀ d ∈ l, f d ≠ f e) →
      ((l ++ [e]).map f).Nodup := by
    intro f hnodup hnew
    rw [List.map_append, List.nodup_append]
    refine ⟨hnodup, by simp, fun x hx y hy => ?_⟩
    obtain ⟨d, hd, rfl⟩ := List.mem_map.mp hx
    have hye : y = f e := by simpa using hy
    exact hye ▸ hnew d hd
  have harrows : arrows (l ++ [e]) = arrows l ++ [(e.predecessor, e.successor)] := by
    simp [arrows]
  have hkeys : (arrows l).map Prod.fst = l.map MemorySupersession.predecessor := by
    simp [arrows]
  have hof : ∀ {k : MemoryId}, (∀ d ∈ l, d.predecessor ≠ k) → ∀ a ∈ arrows l, a.1 ≠ k := by
    intro k hk a ha
    obtain ⟨d, hd, rfl⟩ := List.mem_map.mp ha
    exact hk d hd
  have hvalid' : validTransitions (l ++ [e]) := by
    simp only [validTransitions, Bool.and_eq_true, decide_eq_true_eq, harrows]
    exact ⟨⟨hadd hpredecessors hfirst, hadd hsuccessors hsuccessor⟩,
      Walk.acyclic_append hacyclic hne (hof hfirst) (hof hlast) (hkeys ▸ hpredecessors)⟩
  exact ⟨⟨l ++ [e], hvalid'⟩, dif_pos hvalid', rfl⟩

/-- A proposal that supersedes nothing, or whose transition is published, saves its record. -/
theorem activate_save {transition : Option MemorySupersession}
    (h : p.record.supersedes = none ∨ transition.isSome) :
    store.activate p transition reason now = store.save p.record := by
  unfold activate
  rcases h with h | h
  · rw [h]
  · obtain ⟨e, rfl⟩ := Option.isSome_iff_exists.mp h
    cases p.record.supersedes <;> rfl

/-- A first approval looks at the predecessor, saves the record and publishes the
transition. -/
theorem activate_first (hi : p.record.supersedes = some i) :
    store.activate p none reason now = (do
      store.checkPredecessor p i
      store.save p.record
      publish p i reason now) := by
  unfold activate
  rw [hi]

/-- What a proposal asks for can be saved as soon as its record passes the secret check. -/
theorem savable_of_asked (hasked : store.Proposable p s)
    (hsafe : store.ensureRecordSafe p.record [] = .ok ()) : Savable store s p.record :=
  ⟨hsafe, hasked.1, hasked.2.1⟩

/-- Either the predecessor of a proposal is as it was proposed, or the proposal is outdated. -/
theorem run_check (hkept : MemoryKept store s) (hp : p ∈ s.proposals)
    (hunpublished : published s.lifecycle p.id = none) (hi : p.record.supersedes = some i) :
    (¬ Outdated store s p ∧ (∀ j, ¬ s.Supersedes i j) ∧
        (store.checkPredecessor p i).run s = ⟨[], .ok ⟨⟩, s⟩) ∨
      Outdated store s p ∧ (store.checkPredecessor p i).run s = ⟨[], .error (.conflict
        "Superseded memory changed after proposal; stage a new proposal"), s⟩ := by
  obtain ⟨-, -, q, hq⟩ := (hkept.asked p hp).2.2 i hi
  by_cases h : p.predecessorDigest ≠ some (store.sha256 (frontmatter q)) ∨ s.state q ≠ .ACTIVE
  · exact .inr ⟨⟨hunpublished, i, q, hi, hq, h⟩, run_checkPredecessor_changed hq h⟩
  · refine .inl ⟨?_, ?_, run_checkPredecessor hq h⟩
    · rintro ⟨-, j, w, hj, hw, hchanged⟩
      obtain rfl := Option.some.inj (hi.symm.trans hj)
      obtain rfl := Except.ok.inj (hq.symm.trans hw)
      exact h hchanged
    · obtain ⟨file, hfile, hread, -⟩ := lookup_eq_ok.mp hq
      have hactive : s.state q = .ACTIVE := not_not.mp fun hne => h (.inr hne)
      exact ((hkept.reads_active_iff ⟨file, hfile, hread⟩).mp hactive).1

/-- An approval that is not outdated activates a record that can be kept. -/
theorem ends_activate (reason : List Char) (now : Time) (hkept : MemoryKept store s)
    (hp : p ∈ s.proposals)
    (hcurrent : ¬ Outdated store s p) (hkeepable : Keepable store s p.record)
    (hlast : ∀ j, ¬ s.Supersedes p.record.id j) :
    ∃ u, Ends (store.activate p (published s.lifecycle p.id) reason now) s (.ok ⟨⟩) u ∧
      u.staging = s.staging ∧ u.history = s.history ∧
      (∃ r, u.Reads p.record.id r ∧ r.supersedes = p.record.supersedes) ∧
      (∀ j, ¬ u.Supersedes p.record.id j) ∧
      ∀ i, p.record.supersedes = some i → u.Supersedes i p.record.id := by
  have hsavable := savable_of_asked (hkept.asked p hp) hkeepable.safe
  obtain ⟨u, hsaved, hstaging, hhistory, hlifecycle, hread⟩ := ends_save hsavable hkeepable
  have hsupersedes : ∀ i j, u.Supersedes i j ↔ s.Supersedes i j := by
    intro i j
    unfold MemoryDisk.Supersedes
    rw [hlifecycle]
  cases hpublished : published s.lifecycle p.id with
  | some e =>
    refine ⟨u, ?_, hstaging, hhistory, hread, fun j hj => hlast j ((hsupersedes _ _).mp hj),
      fun i hi => (hsupersedes _ _).mpr ?_⟩
    · rw [activate_save (.inr rfl)]
      exact hsaved
    · have hmem := List.mem_of_find?_eq_some hpublished
      obtain ⟨w, hw, hid, hagrees, -⟩ := hkept.published e hmem
      have hep : e.proposalId = p.id := by simpa using List.find?_some hpublished
      obtain rfl := hkept.eq_of_id hw hp (hid.trans hep)
      obtain ⟨hsuccessor, hpredecessor, -⟩ := agrees_iff.mp hagrees
      exact MemoryDisk.supersedes_iff.mpr
        ⟨e, hmem, Option.some.inj (hpredecessor.trans hi), hsuccessor⟩
  | none =>
    cases hi : p.record.supersedes with
    | none =>
      rw [hi] at hread
      refine ⟨u, ?_, hstaging, hhistory, hread, fun j hj => hlast j ((hsupersedes _ _).mp hj),
        by simp⟩
      rw [activate_save (.inl hi)]
      exact hsaved
    | some i =>
      rcases run_check hkept hp hpublished hi with ⟨-, hfirst, hcheck⟩ | ⟨houtdated, -⟩
      swap
      · exact absurd houtdated hcurrent
      obtain ⟨hne, hdigest, -⟩ := (hkept.asked p hp).2.2 i hi
      obtain ⟨digest, hdigest⟩ := Option.isSome_iff_exists.mp hdigest
      have hnone : ∀ d ∈ u.lifecycle.supersessions, d.predecessor ≠ i := by
        intro d hd hdi
        exact hfirst d.successor ((hsupersedes _ _).mp
          (MemoryDisk.supersedes_iff.mpr ⟨d, hd, hdi, rfl⟩))
      have hnew : ∀ d ∈ u.lifecycle.supersessions, d.successor ≠ p.record.id := by
        intro d hd hdi
        rw [hlifecycle] at hd
        have hid := (hkept.agrees_of_successor hp hd hdi).1
        exact List.find?_eq_none.mp hpublished d hd (by simpa using hid)
      have hend : ∀ d ∈ u.lifecycle.supersessions, d.predecessor ≠ p.record.id := by
        intro d hd hdi
        exact hlast d.successor ((hsupersedes _ _).mp
          (MemoryDisk.supersedes_iff.mpr ⟨d, hd, hdi, rfl⟩))
      obtain ⟨document, hdocument, hsupersessions⟩ := construct_ok u.lifecycle.valid
        (e := ⟨i, p.record.id, digest, p.id, now, reason, p.evidence⟩) hne hnone hnew hend
      have hpublish : Ends (publish p i reason now) u (.ok ⟨⟩) (u.putLifecycle document) := by
        unfold publish
        rw [hdigest]
        refine (ends_of_quiet rfl).bind (a := u.lifecycle) ?_
        refine (ends_of_quiet ?_).bind (ends_write _ _)
        rw [hdocument, run_lift]
      have hiff : ∀ j k, (u.putLifecycle document).Supersedes j k ↔
          s.Supersedes j k ∨ j = i ∧ k = p.record.id := by
        intro j k
        rw [← hsupersedes, MemoryDisk.supersedes_iff, MemoryDisk.supersedes_iff]
        show (∃ e ∈ document.supersessions, _) ↔ _
        rw [hsupersessions]
        simp [or_and_right, exists_or, eq_comm]
      refine ⟨u.putLifecycle document, ?_, hstaging, hhistory, ?_, ?_, ?_⟩
      · rw [activate_first hi]
        exact (ends_of_quiet hcheck).bind (hsaved.bind hpublish)
      · rw [hi] at hread
        exact hread
      · intro j hj
        rcases (hiff _ _).mp hj with hj | ⟨hid, -⟩
        · exact hlast j hj
        · exact hne hid.symm
      · rintro k ⟨⟩
        exact (hiff _ _).mpr (.inr ⟨rfl, rfl⟩)

/-- An outdated proposal is refused before anything is written. -/
theorem ends_activate_outdated (h : Outdated store s p) :
    ∃ text, Ends (store.activate p (published s.lifecycle p.id) reason now) s
      (.error (.conflict text)) s := by
  obtain ⟨hunpublished, i, q, hi, hq, hchanged⟩ := h
  refine ⟨"Superseded memory changed after proposal; stage a new proposal", ?_⟩
  rw [hunpublished, activate_first hi]
  exact (ends_of_quiet (run_checkPredecessor_changed hq hchanged)).bind_error

/-- What an activation that went through has found and kept. -/
theorem of_ends_activate (hkept : MemoryKept store s) (hp : p ∈ s.proposals)
    (h : Ends (store.activate p (published s.lifecycle p.id) reason now) s (.ok ⟨⟩) u)
    (hread : ∃ r, u.Reads p.record.id r) :
    ¬ Outdated store s p ∧ Keepable store s p.record ∧
      ∀ i j, s.Supersedes i j → u.Supersedes i j := by
  by_cases houtdated : Outdated store s p
  · obtain ⟨text, herror⟩ : ∃ text, Ends
        (store.activate p (published s.lifecycle p.id) reason now) s (.error (.conflict text)) s :=
      ends_activate_outdated houtdated
    cases herror.1.symm.trans h.1
  refine ⟨houtdated, ?_⟩
  by_cases hfirst : p.record.supersedes = none ∨ (published s.lifecycle p.id).isSome
  · rw [activate_save hfirst] at h
    obtain ⟨hkeepable, hlifecycle⟩ := of_ends_save h hread
    refine ⟨hkeepable, fun i j hij => ?_⟩
    unfold MemoryDisk.Supersedes
    rwa [hlifecycle]
  · obtain ⟨hsome, hnone⟩ := not_or.mp hfirst
    obtain ⟨i, hi⟩ := Option.ne_none_iff_exists'.mp hsome
    have hunpublished : published s.lifecycle p.id = none := by simpa using hnone
    rcases run_check hkept hp hunpublished hi with ⟨-, -, hcheck⟩ | ⟨h', -⟩
    swap
    · exact absurd h' houtdated
    rw [hunpublished, activate_first hi] at h
    obtain ⟨_, v, hchecked, h⟩ := h.of_bind
    obtain rfl : s = v := by
      rw [← hchecked.2, hcheck]
    obtain ⟨_, v, hsaved, hpublished⟩ := h.of_bind
    obtain ⟨hrecords, hgrows⟩ := of_ends_publish hpublished
    obtain ⟨hkeepable, hlifecycle⟩ := of_ends_save hsaved (by
      obtain ⟨q, file, hfile, hparse⟩ := hread
      exact ⟨q, file, by rwa [MemoryDisk.file?, ← hrecords], hparse⟩)
    refine ⟨hkeepable, fun j k hjk => hgrows j k ?_⟩
    unfold MemoryDisk.Supersedes
    rwa [hlifecycle]

theorem run_ensureSecretSafe (hsafe : store.secretFree reason) (s : MemoryDisk) :
    (Prog.lift (store.ensureSecretSafe [reason]) : MemoryProg Unit).run s = ⟨[], .ok (), s⟩ := by
  rw [run_lift, ensureSecretSafe, if_pos (by simpa using hsafe)]

/-- An approval of a staged proposal activates it, decides it and moves it to the history. -/
theorem run_approve_staged (now : Time) (hkept : MemoryKept store s)
    (hreason : ¬ Text.blank reason)
    (hsafe : store.secretFree reason) (hstaged : s.staged? p.id = some p)
    (hstatus : p.status ≠ .REJECTED) :
    ∃ q : MemoryProposal, q.SameProposal p ∧ q.status = .APPROVED ∧
      (store.approve p.id reason now).run s =
        (store.activate p (published s.lifecycle p.id) reason now >>= fun _ => do
          Prog.write (MemoryDisk.putStaged ⟨p.id, some q⟩)
          Prog.write (MemoryDisk.archive ⟨p.id, some q⟩)
          return q : MemoryProg MemoryProposal).run s := by
  have hp := MemoryDisk.mem_proposals_of_staged? hstaged
  have hany : ¬ (published s.lifecycle p.id).any fun e => !true || !agrees e p := by
    cases hpublished : published s.lifecycle p.id with
    | none => simp
    | some e =>
      obtain ⟨w, hw, hid, hagrees, -⟩ := hkept.published e (List.mem_of_find?_eq_some hpublished)
      have hep : e.proposalId = p.id := by simpa using List.find?_some hpublished
      obtain rfl := hkept.eq_of_id hw hp (hid.trans hep)
      simp [hagrees]
  have hlive : ¬ (p.status ≠ .PENDING ∧ p.status ≠ .APPROVED) := by
    cases h : p.status <;> simp_all
  refine ⟨decided p .APPROVED (published s.lifecycle p.id) reason now, ?_, ?_, ?_⟩
  · unfold decided
    split <;> exact ⟨rfl, rfl, rfl⟩
  · unfold decided
    split
    · assumption
    · rfl
  · unfold approve review
    rw [if_neg hreason]
    rw [Prog.run_bind_of_ok (run_ensureSecretSafe hsafe s),
      Prog.run_bind_of_ok (a := s.staged? p.id) rfl, hstaged]
    show (store.reviewStaged p true reason now).run s = _
    unfold reviewStaged
    simp only [if_true]
    rw [if_neg hlive, Prog.run_bind_of_ok (a := s.lifecycle) rfl, if_neg hany]

/-- So it ends as the activation does: with its error, or with the proposal in the history. -/
theorem ends_approve_staged (now : Time) (hkept : MemoryKept store s)
    (hreason : ¬ Text.blank reason)
    (hsafe : store.secretFree reason) (hstaged : s.staged? p.id = some p)
    (hstatus : p.status ≠ .REJECTED) :
    (∀ e t, Ends (store.activate p (published s.lifecycle p.id) reason now) s (.error e) t →
      Ends (store.approve p.id reason now) s (.error e) t) ∧
    ∃ q : MemoryProposal, q.SameProposal p ∧ q.status = .APPROVED ∧
      (∀ t, Ends (store.activate p (published s.lifecycle p.id) reason now) s (.ok ⟨⟩) t →
        Ends (store.approve p.id reason now) s (.ok q)
          ((t.putStaged ⟨p.id, some q⟩).archive ⟨p.id, some q⟩)) ∧
      ∀ w u, Ends (store.approve p.id reason now) s (.ok w) u →
        ∃ t, Ends (store.activate p (published s.lifecycle p.id) reason now) s (.ok ⟨⟩) t ∧
          u = (t.putStaged ⟨p.id, some q⟩).archive ⟨p.id, some q⟩ := by
  obtain ⟨q, hq, happroved, hrun⟩ :=
    run_approve_staged now hkept hreason hsafe hstaged hstatus
  have hends : ∀ v t, Ends (store.approve p.id reason now) s v t ↔
      Ends (store.activate p (published s.lifecycle p.id) reason now >>= fun _ => do
        Prog.write (MemoryDisk.putStaged ⟨p.id, some q⟩)
        Prog.write (MemoryDisk.archive ⟨p.id, some q⟩)
        return q) s v t := by
    intro v t
    unfold Ends
    rw [hrun]
  have hsettled : ∀ t, Ends (do
      Prog.write (MemoryDisk.putStaged ⟨p.id, some q⟩)
      Prog.write (MemoryDisk.archive ⟨p.id, some q⟩)
      return q : MemoryProg MemoryProposal) t (.ok q)
        ((t.putStaged ⟨p.id, some q⟩).archive ⟨p.id, some q⟩) := fun _ => ⟨rfl, rfl⟩
  refine ⟨fun e t h => (hends _ _).mpr h.bind_error, q, hq, happroved,
    fun t h => (hends _ _).mpr (h.bind (hsettled t)), fun w u h => ?_⟩
  obtain ⟨_, t, hactivated, hrest⟩ := ((hends _ _).mp h).of_bind
  exact ⟨t, hactivated, hrest.2.symm.trans (hsettled t).2⟩

/-- An approval of an approved proposal in the history answers it. -/
theorem run_approve_reviewed (hkept : MemoryKept store s) (hreason : ¬ Text.blank reason)
    (hsafe : store.secretFree reason) (hreviewed : s.reviewed? p.id = some p)
    (happroved : p.status = .APPROVED) :
    (store.approve p.id reason now).run s = ⟨[], .ok p, s⟩ := by
  have hnone := hkept.staged?_eq_none hreviewed
  unfold approve review
  rw [if_neg hreason]
  rw [Prog.run_bind_of_ok (run_ensureSecretSafe hsafe s),
    Prog.run_bind_of_ok (a := s.staged? p.id) rfl, hnone]
  rw [Prog.run_bind_of_ok (a := s.reviewed? p.id) rfl, hreviewed]
  simp [happroved]

end Running

end CuratedMemoryStore

/-! ## Approving again -/

/-- The proposal is approved and in the history, and its record is active. -/
structure Completes (p : MemoryProposal) (ran : Ran MemoryDisk Error MemoryProposal) : Prop where
  approved : ∃ q : MemoryProposal, ran.value = .ok q ∧ q.SameProposal p ∧ q.status = .APPROVED ∧
    ran.disk.reviewed? p.id = some q
  active : ran.disk.Active p.record.id

/-- What an approval that is called again owes its proposal: it completes it, or, before its
transition is published, refuses it because the predecessor changed. A proposal whose
transition is published, or whose record is active, is completed. -/
structure Resumes (store : CuratedMemoryStore) (s : MemoryDisk) (p : MemoryProposal)
    (ran : Ran MemoryDisk Error MemoryProposal) : Prop where
  outcome : Completes p ran ∨
    (∃ text, ran.value = .error (.conflict text)) ∧ store.Outdated s p
  owed : (published s.lifecycle p.id).isSome ∨ s.Active p.record.id → Completes p ran

/-- The approval of a proposal can be resumed: the proposal is outdated and its record not
active, or its record is not superseded and can be kept. -/
def Resumable (store : CuratedMemoryStore) (s : MemoryDisk) (p : MemoryProposal) : Prop :=
  store.Outdated s p ∧ ¬ s.Active p.record.id ∨
    ¬ store.Outdated s p ∧ (∀ j, ¬ s.Supersedes p.record.id j) ∧
      (s.staged? p.id = none ∧ (∃ r, s.Reads p.record.id r) ∨
        (s.staged? p.id).isSome ∧ store.Keepable s p.record)

section Resuming

variable {store : CuratedMemoryStore} {s t : MemoryDisk} {p q : MemoryProposal}
  {reason : List Char} {now : Time}

/-- The end of an approval keeps the invariant. -/
theorem MemoryKept.approve {i : ProposalId} (hkept : MemoryKept store s) :
    MemoryKept store ((store.approve i reason now).run s).disk := by
  have hend : (MemoryOperation.approve i reason now).Leaves store s
      ((store.approve i reason now).run s).disk := by
    refine .inr ?_
    simp only [MemoryOperation.program, Prog.run_bind, Prog.andThen]
    cases ((store.approve i reason now).run s).value <;> rfl
  exact hkept.leaves hend

/-- A proposal that is outdated is refused, and so it should be unless its record is active. -/
theorem resumes_outdated (hkept : MemoryKept store s) (hreason : ¬ Text.blank reason)
    (hsafe : store.secretFree reason) (hstaged : s.staged? p.id = some p)
    (hstatus : p.status ≠ .REJECTED) (houtdated : store.Outdated s p) :
    Resumes store s p ((store.approve p.id reason now).run s) ↔ ¬ s.Active p.record.id := by
  obtain ⟨text, herror⟩ : ∃ text, Ends
      (store.activate p (published s.lifecycle p.id) reason now) s (.error (.conflict text)) s :=
    ends_activate_outdated houtdated
  obtain ⟨hvalue, -⟩ :=
    (ends_approve_staged now hkept hreason hsafe hstaged hstatus).1 _ _ herror
  have hnever : ¬ Completes p ((store.approve p.id reason now).run s) := by
    rintro ⟨⟨w, hw, -⟩, -⟩
    rw [hvalue] at hw
    cases hw
  constructor
  · exact fun h hactive => hnever (h.owed (.inr hactive))
  · intro hinactive
    refine ⟨.inr ⟨⟨text, hvalue⟩, houtdated⟩, ?_⟩
    rintro (hsome | hactive)
    · rw [houtdated.1] at hsome
      cases hsome
    · exact absurd hactive hinactive

/-- A proposal that is not outdated has to be completed. -/
theorem resumes_current {ran : Ran MemoryDisk Error MemoryProposal}
    (hcurrent : ¬ store.Outdated s p) : Resumes store s p ran ↔ Completes p ran :=
  ⟨fun h => h.outcome.resolve_right fun h => hcurrent h.2, fun h => ⟨.inl h, fun _ => h⟩⟩

theorem completes_staged (hkept : MemoryKept store s) (hreason : ¬ Text.blank reason)
    (hsafe : store.secretFree reason)
    (hstaged : s.staged? p.id = some p) (hstatus : p.status ≠ .REJECTED)
    (hcurrent : ¬ store.Outdated s p) :
    Completes p ((store.approve p.id reason now).run s) ↔
      (∀ j, ¬ s.Supersedes p.record.id j) ∧ store.Keepable s p.record := by
  have hp := MemoryDisk.mem_proposals_of_staged? hstaged
  have hend : MemoryKept store ((store.approve p.id reason now).run s).disk := hkept.approve
  obtain ⟨-, q, hq, happroved, hcompleted, hactivated⟩ :=
    ends_approve_staged now hkept hreason hsafe hstaged hstatus
  constructor
  · rintro ⟨⟨w, hw, -⟩, hactive⟩
    obtain ⟨t, hactivated, hdisk⟩ := hactivated w _ ⟨hw, rfl⟩
    obtain ⟨r, hread, hlast, -⟩ := hend.active_iff.mp hactive
    rw [hdisk] at hread hlast
    obtain ⟨-, hkeepable, hgrows⟩ := of_ends_activate hkept hp hactivated ⟨r, hread⟩
    exact ⟨fun j hj => hlast j (hgrows _ _ hj), hkeepable⟩
  · rintro ⟨hlast, hkeepable⟩
    obtain ⟨t, hactivated, -, -, ⟨r, hread, hsupersedes⟩, hlast, hpublished⟩ :=
      ends_activate reason now hkept hp hcurrent hkeepable hlast
    obtain ⟨hvalue, hdisk⟩ := hcompleted t hactivated
    refine ⟨⟨q, hvalue, hq, happroved, ?_⟩, hend.active_iff.mpr ⟨r, ?_⟩⟩
    · rw [hdisk]
      exact MemoryDisk.reviewed?_archive_self _ ⟨p.id, some q⟩
    · rw [hdisk]
      exact ⟨hread, hlast, fun i hi => hpublished i (hsupersedes ▸ hi)⟩

/-- An approved proposal in the history is not outdated, and its record is active unless it
is superseded or its file cannot be read. -/
theorem completes_reviewed (now : Time) (hkept : MemoryKept store s) (hheld : ApprovedHeld s)
    (hreason : ¬ Text.blank reason) (hsafe : store.secretFree reason)
    (hreviewed : s.reviewed? p.id = some p) (happroved : p.status = .APPROVED) :
    ¬ store.Outdated s p ∧ (Completes p ((store.approve p.id reason now).run s) ↔
      (∀ j, ¬ s.Supersedes p.record.id j) ∧ ∃ r, s.Reads p.record.id r) := by
  have hp : p ∈ s.proposals := MemoryDisk.Live.mem_proposals (.inr ⟨hreviewed, happroved⟩)
  obtain ⟨⟨q, hq, hqid, hsupersedes⟩, htransition⟩ := hheld p hp happroved
  have hpublished : ∀ i, p.record.supersedes = some i → s.Supersedes i p.record.id ∧
      published s.lifecycle p.id ≠ none := by
    intro i hi
    obtain ⟨e, he, hagrees⟩ := htransition (by simp [hi])
    obtain ⟨hsuccessor, hpredecessor, -⟩ := agrees_iff.mp hagrees
    refine ⟨MemoryDisk.supersedes_iff.mpr
      ⟨e, he, Option.some.inj (hpredecessor.trans hi), hsuccessor⟩, fun hnone => ?_⟩
    have hid := (hkept.agrees_of_successor hp he hsuccessor).1
    exact List.find?_eq_none.mp hnone e he (by simpa using hid)
  refine ⟨fun ⟨hnone, i, _, hi, _⟩ => (hpublished i hi).2 hnone, ?_⟩
  rw [run_approve_reviewed hkept hreason hsafe hreviewed happroved]
  constructor
  · rintro ⟨-, hactive⟩
    obtain ⟨r, hread, hlast, -⟩ := hkept.active_iff.mp hactive
    exact ⟨hlast, r, hread⟩
  · rintro ⟨hlast, r, hread⟩
    refine ⟨⟨p, rfl, ⟨rfl, rfl, rfl⟩, happroved, hreviewed⟩, hkept.active_iff.mpr
      ⟨r, hread, hlast, fun i hi => (hpublished i ?_).1⟩⟩
    rw [← hsupersedes, ← hread.supersedes hq hqid, hi]

section Same

variable {ran : Ran MemoryDisk Error MemoryProposal}

theorem MemoryProposal.SameProposal.outdated (h : q.SameProposal p) :
    store.Outdated s q ↔ store.Outdated s p := by
  unfold CuratedMemoryStore.Outdated
  rw [h.id, h.record, h.digest]

theorem MemoryProposal.SameProposal.completes (h : q.SameProposal p) :
    Completes q ran ↔ Completes p ran := by
  constructor
  · rintro ⟨⟨w, hw, hwq, happroved, hreviewed⟩, hactive⟩
    exact ⟨⟨w, hw, ⟨hwq.id.trans h.id, hwq.record.trans h.record, hwq.digest.trans h.digest⟩,
      happroved, h.id ▸ hreviewed⟩, h.record ▸ hactive⟩
  · rintro ⟨⟨w, hw, hwp, happroved, hreviewed⟩, hactive⟩
    exact ⟨⟨w, hw, ⟨hwp.id.trans h.id.symm, hwp.record.trans h.record.symm,
      hwp.digest.trans h.digest.symm⟩, happroved, h.id.symm ▸ hreviewed⟩,
      h.record.symm ▸ hactive⟩

theorem MemoryProposal.SameProposal.resumes (h : q.SameProposal p) :
    Resumes store s q ran ↔ Resumes store s p ran := by
  constructor
  · rintro ⟨houtcome, howed⟩
    rw [h.completes, h.outdated] at houtcome
    rw [h.completes, h.id, h.record] at howed
    exact ⟨houtcome, howed⟩
  · rintro ⟨houtcome, howed⟩
    rw [← h.completes, ← h.outdated] at houtcome
    rw [← h.completes, ← h.id, ← h.record] at howed
    exact ⟨houtcome, howed⟩

theorem MemoryProposal.SameProposal.resumable (h : q.SameProposal p) :
    Resumable store s q ↔ Resumable store s p := by
  unfold Resumable
  rw [h.outdated, h.id, h.record]

end Same

/-- One operation that does not reject a proposal, wherever it ends or is stopped. -/
def SparingStep (store : CuratedMemoryStore) (i : ProposalId) (s t : MemoryDisk) : Prop :=
  ∃ op : MemoryOperation, op.Spares i ∧ op.Leaves store s t

theorem approvedHeld_leaves {op : MemoryOperation} (hkept : MemoryKept store s)
    (hheld : ApprovedHeld s) (h : op.Leaves store s t) : MemoryKept store t ∧ ApprovedHeld t :=
  System.Preserved.run (I := fun s => MemoryKept store s ∧ ApprovedHeld s)
    (fun _ _ hs hmove => ⟨hs.1.move hmove, hs.2.move hs.1 hmove⟩) (h.moves hkept.named)
    ⟨hkept, hheld⟩

/-- A proposal that is not rejected stays open to approval. -/
theorem SparingStep.live (h : SparingStep store p.id s t) (hkept : MemoryKept store s)
    (hlive : ∃ q : MemoryProposal, q.SameProposal p ∧ s.Live q) :
    ∃ q : MemoryProposal, q.SameProposal p ∧ t.Live q := by
  obtain ⟨op, hspares, hleaves⟩ := h
  have hspared : ∀ w, op.Rejects s w → w.id ≠ p.id := by
    intro w hw hid
    cases op with
    | reject i reason now =>
      have hwi : w.id = i := hkept.named.staged hw
      exact hspares reason now (by rw [← hid, hwi])
    | save | propose | approve | revalidate => exact hw
  have hrun := System.Preserved.run
    (I := fun s => MemoryKept store s ∧ ∃ q : MemoryProposal, q.SameProposal p ∧ s.Live q)
    (fun _ _ hs hmove => ⟨hs.1.move hmove, hmove.live hs.1 hspared hs.2⟩)
    (hleaves.moves hkept.named) ⟨hkept, hlive⟩
  exact hrun.2

/-- Whatever happened before, wherever an approval of a pending proposal was stopped, and
whatever other operations did since then: approving the proposal again does what it owes
exactly when the approval is `Resumable`. -/
theorem approve_resumes_iff (hrun : ReflTransGen (MemoryStep store) {} s)
    (hstaged : s.staged? p.id = some p) (hpending : p.status = .PENDING)
    (hlater : ReflTransGen (SparingStep store p.id) s t) (hreason : ¬ Text.blank reason)
    (hsafe : store.secretFree reason) :
    Resumes store t p ((store.approve p.id reason now).run t) ↔ Resumable store t p := by
  have hempty : ApprovedHeld {} := by
    intro w hw
    cases hw
  have hrun' : ReflTransGen (MemoryStep store) {} t :=
    hrun.trans (hlater.lift id fun _ _ ⟨op, _, hop⟩ => ⟨op, hop⟩)
  obtain ⟨hkept, hheld⟩ := System.Preserved.run (I := fun s => MemoryKept store s ∧ ApprovedHeld s)
    (fun _ _ hs ⟨_, hop⟩ => approvedHeld_leaves hs.1 hs.2 hop) hrun' ⟨kept_empty, hempty⟩
  obtain ⟨-, q, hq, hlive⟩ := System.Preserved.run
    (I := fun s => MemoryKept store s ∧ ∃ q : MemoryProposal, q.SameProposal p ∧ s.Live q)
    (fun _ _ hs hstep => by
      obtain ⟨op, hspares, hop⟩ := hstep
      exact ⟨hs.1.leaves hop, SparingStep.live ⟨op, hspares, hop⟩ hs.1 hs.2⟩)
    hlater ⟨kept_of_run hrun, p, ⟨rfl, rfl, rfl⟩, .inl ⟨hstaged, by simp [hpending]⟩⟩
  rw [← hq.resumes, ← hq.resumable, ← hq.id]
  rcases hlive with ⟨hstaged, hstatus⟩ | ⟨hreviewed, happroved⟩
  · by_cases houtdated : store.Outdated t q
    · rw [resumes_outdated hkept hreason hsafe hstaged hstatus houtdated]
      simp [Resumable, houtdated]
    · rw [resumes_current houtdated,
        completes_staged hkept hreason hsafe hstaged hstatus houtdated]
      simp [Resumable, houtdated, hstaged]
  · obtain ⟨hcurrent, hiff⟩ :=
      completes_reviewed now hkept hheld hreason hsafe hreviewed happroved
    have hnone := hkept.staged?_eq_none hreviewed
    rw [resumes_current hcurrent, hiff]
    simp [Resumable, hcurrent, hnone]

/-- A record that was verified at a commit. -/
def sampleVerified : DurableMemoryRecord :=
  { sampleTabs with verifiedCommit := some "a".toList }

/-- A review of the record was proposed. -/
def sampleReview : MemoryDisk :=
  ((sampleMemoryStore.propose sampleVerified "Style".toList .review [] none 20240101 0).run
    {}).disk

/-- The approval of the review stopped after its first file step. -/
def sampleHalf : MemoryDisk :=
  sampleReview.putRecord sampleVerified.id (frontmatter sampleVerified)

theorem sampleReview_run : ReflTransGen (MemoryStep sampleMemoryStore) {} sampleReview :=
  .single ⟨.propose sampleVerified "Style".toList .review [] none 20240101 0, .inr rfl⟩

theorem sampleReview_staged : ∃ p : MemoryProposal, sampleReview.staged? p.id = some p ∧
    p.status = .PENDING ∧ p.id = ⟨20240101, 1⟩ ∧ p.record = sampleVerified := by
  obtain ⟨p, hstaged, hpending, hid, hrecord⟩ : ∃ p : MemoryProposal,
      sampleReview.staged? ⟨20240101, 1⟩ = some p ∧ p.status = .PENDING ∧
      p.id = ⟨20240101, 1⟩ ∧ p.record = sampleVerified := ⟨_, rfl, rfl, rfl, rfl⟩
  exact ⟨p, hid ▸ hstaged, hpending, hid, hrecord⟩

theorem sampleHalf_stop :
    sampleHalf ∈ ((sampleMemoryStore.approve ⟨20240101, 1⟩ "Yes".toList 1).run
      sampleReview).stops :=
  List.mem_of_head? (a := sampleHalf) rfl

theorem sampleHalf_reads : sampleHalf.Reads sampleVerified.id sampleVerified :=
  ⟨frontmatter sampleVerified, MemoryDisk.file?_putRecord_self _ _ _,
    parseRecord_eq_self.mpr (by decide)⟩

/-- The stopped approval of the review can be resumed. -/
theorem sampleHalf_resumes : ∃ p : MemoryProposal, p.record = sampleVerified ∧
    Resumes sampleMemoryStore sampleHalf p
      ((sampleMemoryStore.approve p.id "Yes".toList 2).run sampleHalf) := by
  obtain ⟨p, hstaged, hpending, hid, hrecord⟩ := sampleReview_staged
  have hstopped : SparingStep sampleMemoryStore p.id sampleReview sampleHalf :=
    ⟨.approve ⟨20240101, 1⟩ "Yes".toList 1, by simp [MemoryOperation.Spares],
      .inl sampleHalf_stop⟩
  refine ⟨p, hrecord, (approve_resumes_iff sampleReview_run hstaged hpending (.single hstopped)
    (by decide) rfl).mpr (.inr ⟨?_, ?_, .inr ⟨?_, ?_, .inr ?_⟩⟩)⟩
  · rintro ⟨-, i, q, hi, -⟩
    rw [hrecord] at hi
    cases hi
  · intro j hj
    cases hj
  · rw [show sampleHalf.staged? p.id = sampleReview.staged? p.id from rfl, hstaged]
    rfl
  · rfl
  · rw [hrecord]
    exact sampleHalf_reads

/-- The record after a revalidation at a later commit. -/
def sampleMoved : DurableMemoryRecord :=
  reverified sampleVerified "b".toList sampleVerified.lastVerifiedAt (fun _ => none) (by
    intro path hpath
    cases hpath)

/-- A revalidation of the half approved record writes its file again. -/
theorem run_revalidate_sampleHalf :
    (sampleMemoryStore.revalidate "b".toList [sampleVerified.id] sampleVerified.lastVerifiedAt
        fun _ => none).run sampleHalf =
      ⟨[sampleHalf.putRecord sampleVerified.id (frontmatter sampleMoved)],
        .ok [(sampleVerified.id, .revalidated)],
        sampleHalf.putRecord sampleVerified.id (frontmatter sampleMoved)⟩ := by
  obtain ⟨file, hfile, hparse⟩ := sampleHalf_reads
  have hlookup : sampleMemoryStore.lookup sampleVerified.id sampleHalf = .ok sampleVerified :=
    lookup_eq_ok.mpr ⟨file, hfile, hparse, rfl⟩
  have hselected : (sampleMemoryStore.selected [sampleVerified.id]).run sampleHalf =
      ⟨[], .ok [sampleVerified], sampleHalf⟩ := by
    unfold selected
    show ([sampleVerified.id].mapM sampleMemoryStore.get).run sampleHalf = _
    rw [List.mapM_cons, Prog.run_bind_of_ok (by rw [run_get, hlookup])]
    rfl
  have hrecord : (sampleMemoryStore.revalidateRecord "b".toList sampleVerified.lastVerifiedAt
      (fun _ => none) sampleVerified).run sampleHalf =
      ⟨[sampleHalf.putRecord sampleVerified.id (frontmatter sampleMoved)],
        .ok (sampleVerified.id, .revalidated),
        sampleHalf.putRecord sampleVerified.id (frontmatter sampleMoved)⟩ := by
    unfold revalidateRecord
    rw [Prog.run_bind_of_ok (a := ()) rfl, Prog.run_bind_of_ok (a := sampleHalf.lifecycle) rfl,
      if_neg (by decide), if_neg (by decide), dif_pos (by
        intro path hpath
        cases hpath)]
    rw [Prog.run_bind_of_ok (a := ()) rfl, Prog.run_bind_of_ok (a := ()) rfl,
      Prog.run_bind_of_ok (a := sampleHalf.file? sampleVerified.id) rfl, hfile,
      Prog.run_bind_of_ok (a := sampleVerified) (by rw [run_lift, hparse]), if_neg (by simp)]
    rfl
  unfold revalidate
  rw [if_neg (by decide), Prog.run_bind_of_ok hselected, List.mapM_cons, Prog.run_bind, hrecord]
  rfl

/-- A review is half approved, its record is revalidated at a later commit, and approving it
again fails, though the record is active. -/
theorem sampleHalf_stuck :
    ∃ (p : MemoryProposal) (t u : MemoryDisk),
      ReflTransGen (MemoryStep sampleMemoryStore) {} sampleReview ∧
      sampleReview.staged? p.id = some p ∧ p.status = .PENDING ∧
      t ∈ ((sampleMemoryStore.approve p.id "Yes".toList 1).run sampleReview).stops ∧
      (sampleMemoryStore.revalidate "b".toList [sampleVerified.id] sampleVerified.lastVerifiedAt
        fun _ => none).run t = ⟨[u], .ok [(sampleVerified.id, .revalidated)], u⟩ ∧
      ¬ Resumes sampleMemoryStore u p ((sampleMemoryStore.approve p.id "Yes".toList 2).run u) := by
  obtain ⟨p, hstaged, hpending, hid, hrecord⟩ := sampleReview_staged
  obtain ⟨u, hu⟩ : ∃ u, u = sampleHalf.putRecord sampleVerified.id (frontmatter sampleMoved) :=
    ⟨_, rfl⟩
  have hrun := run_revalidate_sampleHalf
  rw [← hu] at hrun
  refine ⟨p, sampleHalf, u, sampleReview_run, hstaged, hpending, hid ▸ sampleHalf_stop, hrun,
    fun hresumes => ?_⟩
  have hstopped : MemoryStep sampleMemoryStore sampleReview sampleHalf :=
    ⟨.approve ⟨20240101, 1⟩ "Yes".toList 1, .inl sampleHalf_stop⟩
  have hrevalidated : MemoryStep sampleMemoryStore sampleHalf u := by
    refine ⟨.revalidate "b".toList [sampleVerified.id] sampleVerified.lastVerifiedAt
      fun _ => none, .inr ?_⟩
    simp only [MemoryOperation.program, Prog.run_bind, hrun]
    rfl
  have hkept := kept_of_run ((sampleReview_run.tail hstopped).tail hrevalidated)
  have hstaged' : u.staged? p.id = some p := by
    rw [hu]
    exact hstaged
  have hcurrent : ¬ sampleMemoryStore.Outdated u p := by
    rintro ⟨-, i, q, hi, -⟩
    rw [hrecord] at hi
    cases hi
  rw [resumes_current hcurrent, completes_staged hkept (by decide) rfl hstaged'
    (by simp [hpending]) hcurrent, hrecord] at hresumes
  obtain ⟨-, -, hkeep⟩ := hresumes
  have hfile : u.file? sampleVerified.id = some (frontmatter sampleMoved) := by
    rw [hu]
    exact MemoryDisk.file?_putRecord_self _ _ _
  rcases hkeep with ⟨hnone, -⟩ | ⟨file, hfile', hparse⟩
  · rw [hfile] at hnone
    cases hnone
  · rw [hfile] at hfile'
    rw [← Option.some.inj hfile'] at hparse
    obtain ⟨_, hsame⟩ := parseRecord_eq_ok hparse
    have hcommit : some "a".toList = some "b".toList :=
      congrArg DurableMemoryRecord.verifiedCommit hsame
    exact absurd (Option.some.inj hcommit) (by decide)

end Resuming

end Orqalis
