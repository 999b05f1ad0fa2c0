import Mathlib.Logic.Relation
import Orqalis.Memory.Curated

/-!
# The file steps of the memory store

Each operation of the curated store is a program of file steps; a stop leaves what a part
of them did. `MemoryMove` is one file step with what the operation has made sure of when it
takes it. Whatever an operation leaves, at its end or at a stop, is reached by such moves
(`MemoryOperation.Leaves.moves`). So what every move keeps, every run keeps, however its
operations are stopped and tried again.

A move belongs to the operation that takes it and to the disk that operation started on.
-/

namespace Orqalis

open Lib Lib.Crash Relation

/-- One proposal, whatever was decided on it. -/
structure MemoryProposal.SameProposal (q p : MemoryProposal) : Prop where
  id : q.id = p.id
  record : q.record = p.record
  digest : q.predecessorDigest = p.predecessorDigest

theorem CuratedMemoryStore.agrees_iff {e : MemorySupersession} {p : MemoryProposal} :
    agrees e p ↔ e.successor = p.record.id ∧ some e.predecessor = p.record.supersedes ∧
      some e.predecessorDigest = p.predecessorDigest := by
  simp only [agrees, Bool.and_eq_true, decide_eq_true_eq, and_assoc]

namespace CuratedMemoryStore

variable (store : CuratedMemoryStore)

/-- The record that `get` finds. -/
def lookup (i : MemoryId) (s : MemoryDisk) : Except Error DurableMemoryRecord :=
  match s.file? i with
  | none => .error (.notFound "Memory record not found")
  | some file => store.parseValid i file

theorem run_get (i : MemoryId) (s : MemoryDisk) :
    (store.get i).run s = ⟨[], store.lookup i s, s⟩ := by
  unfold get lookup
  rw [Prog.run_bind_of_ok (a := s.file? i) rfl]
  cases h : s.file? i with
  | none => rfl
  | some file => cases hfile : store.parseValid i file <;> simp [Prog.lift, hfile, Prog.fail]

theorem run_lift {α : Type} (r : Except Error α) (s : MemoryDisk) :
    (Prog.lift r : MemoryProg α).run s = ⟨[], r, s⟩ := by
  cases r <;> rfl

/-- The references of a record are looked up one after another; nothing is written. -/
theorem run_validateReferences (r : DurableMemoryRecord) (s : MemoryDisk) :
    ∃ v, (store.validateReferences r).run s = ⟨[], v, s⟩ ∧
      (v = .ok ⟨⟩ ↔ ∀ i ∈ r.references, ∃ q, store.lookup i s = .ok q) := by
  unfold validateReferences
  induction r.references with
  | nil => exact ⟨.ok ⟨⟩, rfl, by simp⟩
  | cons i l ih =>
    obtain ⟨v, hv, hiff⟩ := ih
    rw [List.forM_cons]
    cases hi : store.lookup i s with
    | error e =>
      refine ⟨.error e, Prog.run_bind_of_error (Prog.run_bind_of_error ?_), ?_⟩
      · rw [run_get, hi]
      · simp [hi]
    | ok q =>
      have hfirst : ((store.get i >>= fun _ => pure ⟨⟩ : MemoryProg PUnit)).run s =
          ⟨[], .ok ⟨⟩, s⟩ :=
        (Prog.run_bind_of_ok (by rw [run_get, hi])).trans rfl
      refine ⟨v, (Prog.run_bind_of_ok hfirst).trans hv, hiff.trans ?_⟩
      simp [hi]

/-- The knowledge of a record: all that a revalidation leaves alone. -/
structure SameKnowledge (r updated : DurableMemoryRecord) : Prop where
  id : updated.id = r.id
  title : updated.title = r.title
  content : updated.content = r.content
  paths : updated.source.paths = r.source.paths
  supersedes : updated.supersedes = r.supersedes
  references : updated.references = r.references

/-- The file of a record is there: it reads as the record, or it is the text of it. -/
def Written (r : DurableMemoryRecord) (s : MemoryDisk) : Prop :=
  ∃ file, s.file? r.id = some file ∧
    (parseRecord (fileName r.id) file = .ok r ∨ file = frontmatter r)

/-- What a proposal may ask for: a predecessor other than itself, with a digest. -/
def Proposable (p : MemoryProposal) (s : MemoryDisk) : Prop :=
  store.validateSources p.record = .ok () ∧
    (∀ i ∈ p.record.references, ∃ q, store.lookup i s = .ok q) ∧
    ∀ i, p.record.supersedes = some i →
      i ≠ p.record.id ∧ p.predecessorDigest.isSome ∧ ∃ q, store.lookup i s = .ok q

end CuratedMemoryStore

open CuratedMemoryStore

namespace MemoryOperation

/-- The operation saves a record. -/
def Saves (op : MemoryOperation) (r : DurableMemoryRecord) : Prop :=
  match op with
  | save q => q = r
  | _ => False

/-- The operation proposes. -/
def Proposes (op : MemoryOperation) : Prop :=
  match op with
  | propose .. => True
  | _ => False

/-- The operation approves a proposal that was staged when it started. -/
def Approves (op : MemoryOperation) (start : MemoryDisk) (p : MemoryProposal) : Prop :=
  match op with
  | approve id .. => start.staged? id = some p
  | _ => False

/-- The operation rejects a proposal that was staged when it started. -/
def Rejects (op : MemoryOperation) (start : MemoryDisk) (p : MemoryProposal) : Prop :=
  match op with
  | reject id .. => start.staged? id = some p
  | _ => False

end MemoryOperation

/-- One file step of an operation, with what the operation has made sure of when it takes
it. -/
inductive MemoryMove (store : CuratedMemoryStore) (op : MemoryOperation) (start s : MemoryDisk) :
    MemoryDisk → Prop
  | stored (r : DurableMemoryRecord)
    (horigin : op.Saves r ∨ ∃ p, op.Approves start p ∧ s.staged? p.id = some p ∧
      p.status ≠ .REJECTED ∧ p.record = r)
    (hsources : store.validateSources r = .ok ()) (hnew : s.file? r.id = none) :
    MemoryMove store op start s (s.putRecord r.id (frontmatter r))
  | reverified (r updated : DurableMemoryRecord) (hread : s.Reads r.id r)
    (hsources : store.validateSources r = .ok ()) (hsame : SameKnowledge r updated) :
    MemoryMove store op start s (s.putRecord r.id (frontmatter updated))
  | opened (i : ProposalId) (hop : op.Proposes) (hstaging : s.staging.has i = false)
    (hhistory : s.history.has i = false) : MemoryMove store op start s (s.putStaged ⟨i, none⟩)
  | proposed (p : MemoryProposal) (hop : op.Proposes)
    (hopen : s.staging.get? p.id = some ⟨p.id, none⟩) (hpending : p.status = .PENDING)
    (hnew : s.file? p.record.id = none) (hfirst : ∀ q ∈ s.proposals, q.record.id ≠ p.record.id)
    (hasks : store.Proposable p s) : MemoryMove store op start s (s.putStaged ⟨p.id, some p⟩)
  | published (p : MemoryProposal) (i : MemoryId) (e : MemorySupersession)
    (document : MemoryLifecycleDocument) (hop : op.Approves start p)
    (hstaged : s.staged? p.id = some p) (hstatus : p.status ≠ .REJECTED)
    (hwritten : Written p.record s) (hi : p.record.supersedes = some i)
    (he : e.proposalId = p.id ∧ agrees e p) (hpredecessor : ∃ q, store.lookup i s = .ok q)
    (hdocument : document.supersessions = s.lifecycle.supersessions ++ [e]) :
    MemoryMove store op start s (s.putLifecycle document)
  | approved (p q : MemoryProposal) (hop : op.Approves start p)
    (hstaged : s.staged? p.id = some p) (hstatus : p.status ≠ .REJECTED)
    (hwritten : Written p.record s)
    (hactivated : p.record.supersedes.isSome → ∃ e ∈ s.lifecycle.supersessions, agrees e p)
    (hq : q.SameProposal p) (happroved : q.status = .APPROVED) :
    MemoryMove store op start s (s.putStaged ⟨p.id, some q⟩)
  | rejected (p q : MemoryProposal) (hop : op.Rejects start p)
    (hstaged : s.staged? p.id = some p) (hstatus : p.status ≠ .APPROVED)
    (hunpublished : CuratedMemoryStore.published s.lifecycle p.id = none)
    (hq : q.SameProposal p) (hrejected : q.status = .REJECTED) :
    MemoryMove store op start s (s.putStaged ⟨p.id, some q⟩)
  | archived (p : MemoryProposal) (hstaged : s.staged? p.id = some p)
    (hstatus : p.status ≠ .PENDING) : MemoryMove store op start s (s.archive ⟨p.id, some p⟩)

section Programs

variable {store : CuratedMemoryStore} {op : MemoryOperation} {s t : MemoryDisk}

/-- A program of an operation that started on `s` takes its moves. -/
def Moves (store : CuratedMemoryStore) (op : MemoryOperation) (s : MemoryDisk) {α : Type}
    (m : MemoryProg α) (t : MemoryDisk) (Q : Except Error α → MemoryDisk → Prop) : Prop :=
  Meets m t (ReflTransGen (MemoryMove store op s) s)
    fun v u => ReflTransGen (MemoryMove store op s) s u ∧ Q v u

/-- Saving: a record that is new is written. -/
theorem moves_save {r : DurableMemoryRecord}
    (horigin : op.Saves r ∨ ∃ p, op.Approves s p ∧ t.staged? p.id = some p ∧
      p.status ≠ .REJECTED ∧ p.record = r)
    (hs : ReflTransGen (MemoryMove store op s) s t) :
    Moves store op s (store.save r) t fun v u =>
      v = .ok ⟨⟩ → Written r u ∧ u.staging = t.staging ∧ u.lifecycle = t.lifecycle ∧
        ∀ i q, store.lookup i t = .ok q → store.lookup i u = .ok q := by
  unfold Moves save
  refine meets_bind_of_quiet (run_lift _ _) (fun _ _ => ?_) (fun e _ => ⟨hs, by simp⟩)
  refine meets_bind_of_quiet (run_lift _ _) (fun _ hsources => ?_) (fun e _ => ⟨hs, by simp⟩)
  obtain ⟨v, hrun, -⟩ := store.run_validateReferences r t
  refine meets_bind_of_quiet hrun (fun _ _ => ?_) (fun e _ => ⟨hs, by simp⟩)
  refine meets_bind_of_quiet (v := .ok (t.file? r.id)) rfl (fun a ha => ?_)
    (fun e he => by cases he)
  cases ha
  cases hfile : t.file? r.id with
  | none =>
    have hmove : MemoryMove store op s t (t.putRecord r.id (frontmatter r)) :=
      .stored r horigin hsources hfile
    have hput := hs.tail hmove
    refine meets_write hput ⟨hput, fun _ => ⟨?_, rfl, rfl, ?_⟩⟩
    · exact ⟨_, MemoryDisk.file?_putRecord_self _ _ _, .inr rfl⟩
    · intro i q hi
      have hne : r.id ≠ i := by
        rintro rfl
        simp [CuratedMemoryStore.lookup, hfile] at hi
      simpa only [CuratedMemoryStore.lookup, MemoryDisk.file?_putRecord_ne t hne] using hi
  | some file =>
    refine meets_bind_of_quiet (run_lift _ _) (fun stored hstored => ?_)
      (fun e _ => ⟨hs, by simp⟩)
    by_cases heq : stored = r
    · simp only [heq, ne_eq, not_true_eq_false, if_false]
      subst heq
      exact meets_pure ⟨hs, fun _ => ⟨⟨file, hfile, .inl hstored⟩, rfl, rfl, fun _ _ h => h⟩⟩
    · simp only [ne_eq, heq, not_false_eq_true, if_true]
      exact meets_fail ⟨hs, by simp⟩

theorem construct_eq_ok {l : List MemorySupersession} {document : MemoryLifecycleDocument}
    (h : MemoryLifecycleDocument.construct l = .ok document) : document.supersessions = l := by
  unfold MemoryLifecycleDocument.construct at h
  split at h
  · cases h
    rfl
  · cases h

/-- Activating: the record, and its transition when it supersedes one. -/
theorem moves_activate {p : MemoryProposal} {transition : Option MemorySupersession}
    {reason : List Char} {now : Time} (hop : op.Approves s p)
    (hstaged : t.staged? p.id = some p) (hstatus : p.status ≠ .REJECTED)
    (htransition : ∀ e, transition = some e → e ∈ t.lifecycle.supersessions ∧ agrees e p)
    (hs : ReflTransGen (MemoryMove store op s) s t) :
    Moves store op s (store.activate p transition reason now) t fun v u =>
      v = .ok ⟨⟩ → Written p.record u ∧ u.staging = t.staging ∧
        (p.record.supersedes.isSome → ∃ e ∈ u.lifecycle.supersessions, agrees e p) := by
  have hsaved := moves_save (.inr ⟨p, hop, hstaged, hstatus, rfl⟩) hs
  unfold Moves activate
  cases hsupersedes : p.record.supersedes with
  | none =>
    refine hsaved.mono (fun _ h => h) fun v u ⟨hu, hpost⟩ => ⟨hu, fun hv => ?_⟩
    obtain ⟨hwritten, hstaging, -⟩ := hpost hv
    exact ⟨hwritten, hstaging, by simp⟩
  | some i =>
    cases transition with
    | some e =>
      refine hsaved.mono (fun _ h => h) fun v u ⟨hu, hpost⟩ => ⟨hu, fun hv => ?_⟩
      obtain ⟨hwritten, hstaging, hlifecycle, -⟩ := hpost hv
      exact ⟨hwritten, hstaging, fun _ => ⟨e, hlifecycle ▸ htransition e rfl⟩⟩
    | none =>
      -- The predecessor is looked at before anything is written.
      obtain ⟨v, hcheck, hfound⟩ : ∃ v, (store.checkPredecessor p i).run t = ⟨[], v, t⟩ ∧
          (v = .ok ⟨⟩ → ∃ q, store.lookup i t = .ok q) := by
        unfold checkPredecessor
        cases hi : store.lookup i t with
        | error e =>
          exact ⟨.error e, Prog.run_bind_of_error (by rw [run_get, hi]), by simp⟩
        | ok q =>
          rw [Prog.run_bind_of_ok (by rw [run_get, hi]),
            Prog.run_bind_of_ok (a := t.lifecycle) rfl]
          split
          · exact ⟨_, rfl, by simp⟩
          · exact ⟨_, rfl, fun _ => ⟨q, rfl⟩⟩
      refine meets_bind_of_quiet hcheck (fun _ hv => ?_) (fun e _ => ⟨hs, by simp⟩)
      obtain ⟨q, hq⟩ := hfound hv
      refine meets_bind (hsaved.mono (fun _ h => h) ?_)
      rintro v u ⟨hu, hpost⟩
      cases v with
      | error e => exact ⟨hu, by simp⟩
      | ok _ =>
        obtain ⟨hwritten, hstaging, hlifecycle, hlookup⟩ := hpost rfl
        have hstagedu : u.staged? p.id = some p := by
          rw [← hstaged]
          simp only [MemoryDisk.staged?, hstaging]
        unfold publish
        cases hdigest : p.predecessorDigest with
        | none => exact meets_fail ⟨hu, by simp⟩
        | some digest =>
          refine meets_bind_of_quiet (v := .ok u.lifecycle) rfl (fun d hd => ?_)
            (fun e he => by cases he)
          cases hd
          refine meets_bind_of_quiet (run_lift _ _) (fun document hdocument => ?_)
            (fun e _ => ⟨hu, by simp⟩)
          have hagrees : agrees ⟨i, p.record.id, digest, p.id, now, reason, p.evidence⟩ p := by
            simp [agrees, hsupersedes, hdigest]
          have hsupersessions := construct_eq_ok hdocument
          have hput := hu.tail (.published p i
            ⟨i, p.record.id, digest, p.id, now, reason, p.evidence⟩ document hop hstagedu
            hstatus hwritten hsupersedes ⟨rfl, hagrees⟩ ⟨q, hlookup i q hq⟩ hsupersessions)
          refine meets_write hput ⟨hput, fun _ => ⟨hwritten, hstaging, fun _ => ?_⟩⟩
          refine ⟨⟨i, p.record.id, digest, p.id, now, reason, p.evidence⟩, ?_, hagrees⟩
          show _ ∈ document.supersessions
          rw [hsupersessions]
          exact List.mem_append_right _ List.mem_cons_self

/-- Settling: the decision, then the move to the history. -/
theorem moves_settle {q : MemoryProposal} {i : ProposalId} (hid : q.id = i)
    (hput : ReflTransGen (MemoryMove store op s) s (t.putStaged ⟨i, some q⟩))
    (hstatus : q.status ≠ .PENDING) :
    Moves store op s (do
      Prog.write (MemoryDisk.putStaged ⟨i, some q⟩)
      Prog.write (MemoryDisk.archive ⟨i, some q⟩)
      return q) t fun _ _ => True := by
  subst hid
  have hstaged : (t.putStaged ⟨q.id, some q⟩).staged? q.id = some q :=
    MemoryDisk.staged?_putStaged_self t ⟨q.id, some q⟩
  have harchive := hput.tail (.archived q hstaged hstatus)
  exact meets_bind (meets_write hput (meets_bind (meets_write harchive
    (meets_pure ⟨harchive, trivial⟩))))

/-- A review of a staged proposal: what it activates, then its decision, then the move to
the history. -/
theorem moves_reviewStaged {p : MemoryProposal} {approved : Bool} {reason : List Char}
    {now : Time} (happroves : approved = true → op.Approves s p)
    (hrejects : approved = false → op.Rejects s p) (hstaged : t.staged? p.id = some p)
    (hs : ReflTransGen (MemoryMove store op s) s t) :
    Moves store op s (store.reviewStaged p approved reason now) t
      fun _ _ => True := by
  have hdecided : ∀ expected transition, (decided p expected transition reason now).SameProposal p ∧
      (decided p expected transition reason now).status = expected := by
    intro expected transition
    unfold decided
    split
    · next h => exact ⟨⟨rfl, rfl, rfl⟩, h⟩
    · exact ⟨⟨rfl, rfl, rfl⟩, rfl⟩
  unfold Moves reviewStaged
  cases approved with
  | true =>
    simp only [if_true, Bool.not_true, Bool.false_or]
    split
    · exact meets_fail ⟨hs, trivial⟩
    next hstatus =>
    have hlive : p.status ≠ .REJECTED := fun h => hstatus (by simp [h])
    refine meets_bind_of_quiet (v := .ok t.lifecycle) rfl (fun d hd => ?_) (fun e he => by cases he)
    cases hd
    split
    · exact meets_fail ⟨hs, trivial⟩
    next hany =>
    have htransition : ∀ e, published t.lifecycle p.id = some e →
        e ∈ t.lifecycle.supersessions ∧ agrees e p := by
      intro e he
      refine ⟨List.mem_of_find?_eq_some he, ?_⟩
      simpa [he] using hany
    refine meets_bind
      ((moves_activate (happroves rfl) hstaged hlive htransition hs).mono (fun _ h => h) ?_)
    rintro v u ⟨hu, hpost⟩
    cases v with
    | error e => exact ⟨hu, trivial⟩
    | ok _ =>
      obtain ⟨hwritten, hstaging, hactivated⟩ := hpost rfl
      obtain ⟨hsame, happroved⟩ := hdecided .APPROVED (published t.lifecycle p.id)
      have hstagedu : u.staged? p.id = some p := by
        rw [← hstaged]
        simp only [MemoryDisk.staged?, hstaging]
      exact moves_settle hsame.id
        (hu.tail (.approved p _ (happroves rfl) hstagedu hlive hwritten hactivated hsame happroved))
        (by simp [happroved])
  | false =>
    simp only [Bool.false_eq_true, if_false, Bool.not_false, Bool.true_or]
    split
    · exact meets_fail ⟨hs, trivial⟩
    next hstatus =>
    have hlive : p.status ≠ .APPROVED := fun h => hstatus (by simp [h])
    refine meets_bind_of_quiet (v := .ok t.lifecycle) rfl (fun d hd => ?_) (fun e he => by cases he)
    cases hd
    split
    · exact meets_fail ⟨hs, trivial⟩
    next hany =>
    have hunpublished : published t.lifecycle p.id = none := by
      cases h : published t.lifecycle p.id with
      | none => rfl
      | some e => simp [h] at hany
    obtain ⟨hsame, hrejected⟩ := hdecided .REJECTED (published t.lifecycle p.id)
    exact moves_settle hsame.id
      (hs.tail (.rejected p _ (hrejects rfl) hstaged hlive hunpublished hsame hrejected))
      (by simp [hrejected])

theorem moves_review {id : ProposalId} {approved : Bool} {reason : List Char} {now : Time}
    (happroves : ∀ p, s.staged? id = some p → approved = true → op.Approves s p)
    (hrejects : ∀ p, s.staged? id = some p → approved = false → op.Rejects s p)
    (hid : ∀ p, s.staged? id = some p → p.id = id) :
    Moves store op s (store.review id approved reason now) s fun _ _ => True := by
  unfold Moves review
  split
  · exact meets_fail ⟨.refl, trivial⟩
  refine meets_bind_of_quiet (run_lift _ _) (fun _ _ => ?_) (fun e _ => ⟨.refl, trivial⟩)
  refine meets_bind_of_quiet (v := .ok (s.staged? id)) rfl (fun a ha => ?_)
    (fun e he => by cases he)
  cases ha
  cases hstaged : s.staged? id with
  | some p =>
    have hstaged' : s.staged? p.id = some p := by rw [hid p hstaged, hstaged]
    exact moves_reviewStaged (happroves p hstaged) (hrejects p hstaged) hstaged' .refl
  | none =>
    refine meets_bind_of_quiet (v := .ok (s.reviewed? id)) rfl (fun a ha => ?_)
      (fun e he => by cases he)
    cases ha
    cases s.reviewed? id with
    | none => exact meets_fail ⟨.refl, trivial⟩
    | some p =>
      by_cases h : p.status = if approved then .APPROVED else .REJECTED
      · simp only [if_pos h]
        exact meets_pure ⟨.refl, trivial⟩
      · simp only [if_neg h]
        exact meets_fail ⟨.refl, trivial⟩

/-- What is known of a record before its identity is looked at. -/
theorem run_superseding (store : CuratedMemoryStore) (r : DurableMemoryRecord)
    (supersedes : Option MemoryId) (s : MemoryDisk) :
    ∃ v, (store.superseding r supersedes).run s = ⟨[], v, s⟩ ∧
      ∀ record digest, v = .ok (record, digest) → record.source = r.source ∧
        record.references = r.references ∧ record.id = r.id ∧
        ∀ i, record.supersedes = some i →
          i ≠ r.id ∧ digest.isSome ∧ ∃ q, store.lookup i s = .ok q := by
  unfold superseding
  cases h : supersedes <|> r.supersedes with
  | none =>
    refine ⟨.ok (r, none), rfl, ?_⟩
    rintro record digest ⟨⟩
    refine ⟨rfl, rfl, rfl, fun i hi => ?_⟩
    cases supersedes <;> simp_all
  | some p =>
    dsimp only
    split
    · exact ⟨_, rfl, by rintro _ _ ⟨⟩⟩
    next hne =>
    cases hp : store.lookup p s with
    | error e =>
      exact ⟨.error e, Prog.run_bind_of_error (by rw [run_get, hp]), by rintro _ _ ⟨⟩⟩
    | ok q =>
      rw [Prog.run_bind_of_ok (by rw [run_get, hp]), Prog.run_bind_of_ok (a := s.lifecycle) rfl]
      split
      · exact ⟨_, rfl, by rintro _ _ ⟨⟩⟩
      · refine ⟨_, rfl, ?_⟩
        rintro record digest ⟨⟩
        refine ⟨rfl, rfl, rfl, ?_⟩
        rintro i ⟨⟩
        exact ⟨hne, rfl, q, hp⟩

/-- Proposing: an empty directory, then its document. -/
theorem moves_propose {r : DurableMemoryRecord} {rationale : List Char}
    {policy : DurableUpdatePolicy} {evidence : List (List Char)} {supersedes : Option MemoryId}
    {day : Nat} {now : Time} (hop : op.Proposes) :
    Moves store op s
      (store.propose r rationale policy evidence supersedes day now) s fun _ _ => True := by
  unfold Moves propose
  refine meets_bind_of_quiet (run_lift _ _) (fun _ _ => ?_) (fun e _ => ⟨.refl, trivial⟩)
  refine meets_bind_of_quiet (run_lift _ _) (fun _ hsources => ?_) (fun e _ => ⟨.refl, trivial⟩)
  obtain ⟨v, hrun, hiff⟩ := store.run_validateReferences r s
  refine meets_bind_of_quiet hrun (fun _ hv => ?_) (fun e _ => ⟨.refl, trivial⟩)
  have hreferences := hiff.mp hv
  obtain ⟨v, hrun, hrecord⟩ := run_superseding store r supersedes s
  refine meets_bind_of_quiet hrun (fun a ha => ?_) (fun e _ => ⟨.refl, trivial⟩)
  obtain ⟨record, digest⟩ := a
  obtain ⟨hsource, hrefs, hid, hsupersedes⟩ := hrecord record digest ha
  refine meets_bind_of_quiet (v := .ok (s.file? record.id)) rfl (fun a ha => ?_)
    (fun e he => by cases he)
  cases ha
  dsimp only
  split
  · exact meets_fail ⟨.refl, trivial⟩
  next hfile =>
  refine meets_bind_of_quiet (v := .ok s.proposals) rfl (fun a ha => ?_) (fun e he => by cases he)
  cases ha
  split
  · exact meets_fail ⟨.refl, trivial⟩
  next hany =>
  refine meets_bind_of_quiet (v := .ok (nextProposalId day s)) rfl (fun a ha => ?_)
    (fun e he => by cases he)
  cases ha
  cases hnext : nextProposalId day s with
  | none => exact meets_fail ⟨.refl, trivial⟩
  | some id =>
    dsimp only
    split
    · exact meets_fail ⟨.refl, trivial⟩
    have hfree := List.find?_some hnext
    simp only [Bool.and_eq_true, Bool.not_eq_true'] at hfree
    have hopen : ReflTransGen (MemoryMove store op s) s (s.putStaged ⟨id, none⟩) :=
      .single (.opened id hop hfree.1 hfree.2)
    have hunheld : ∀ p ∈ (s.putStaged ⟨id, none⟩).proposals, p ∈ s.proposals := by
      intro p hp
      rcases MemoryDisk.mem_proposals_putStaged.mp hp with hp | ⟨e, he, hp⟩
      · cases hp
      · exact MemoryDisk.mem_proposals.mpr ⟨e, he.imp And.left fun h => h, hp⟩
    have hlookup : ∀ i, store.lookup i (s.putStaged ⟨id, none⟩) = store.lookup i s := fun _ => rfl
    have hproposed := hopen.tail (.proposed
      ⟨id, .PENDING, policy, record, rationale, evidence, now, none, none, digest⟩ hop
      (Table.get?_put_self _ (ProposalDirectory.mk id none)) rfl
      (by simpa [MemoryDisk.file?, MemoryDisk.putStaged] using hfile)
      (fun q hq h => hany (List.any_eq_true.mpr ⟨q, hunheld q hq, by simpa using h⟩))
      ⟨by simpa [validateSources, hsource] using hsources,
        fun i hi => by simpa only [hlookup] using hreferences i (hrefs ▸ hi),
        fun i hi => by simpa only [hlookup, hid] using hsupersedes i hi⟩)
    exact meets_bind (meets_write hopen (meets_bind (meets_write hproposed
      (meets_pure ⟨hproposed, trivial⟩))))

theorem sameKnowledge_reverified (r : DurableMemoryRecord) (currentCommit : List Char)
    (verifiedAt : AwareTime) (digest : List Char → Option HexDigest)
    (h : ∀ path ∈ r.source.paths, (digest path).isSome) :
    SameKnowledge r (reverified r currentCommit verifiedAt digest h) :=
  ⟨rfl, rfl, rfl, rfl, rfl, rfl⟩

/-- Revalidating one record: its file is written again when it is stale. -/
theorem moves_revalidateRecord {currentCommit : List Char} {verifiedAt : AwareTime}
    {digest : List Char → Option HexDigest} {r : DurableMemoryRecord}
    (hs : ReflTransGen (MemoryMove store op s) s t) :
    Moves store op s (store.revalidateRecord currentCommit verifiedAt digest r) t
      fun _ _ => True := by
  unfold Moves revalidateRecord
  refine meets_bind_of_quiet (run_lift _ _) (fun _ hsources => ?_) (fun e _ => ⟨hs, trivial⟩)
  refine meets_bind_of_quiet (v := .ok t.lifecycle) rfl (fun a ha => ?_) (fun e he => by cases he)
  cases ha
  split
  · exact meets_fail ⟨hs, trivial⟩
  split
  · exact meets_pure ⟨hs, trivial⟩
  split
  · next h =>
    refine meets_bind_of_quiet (run_lift _ _) (fun _ _ => ?_) (fun e _ => ⟨hs, trivial⟩)
    refine meets_bind_of_quiet (run_lift _ _) (fun _ _ => ?_) (fun e _ => ⟨hs, trivial⟩)
    refine meets_bind_of_quiet (v := .ok (t.file? r.id)) rfl (fun a ha => ?_)
      (fun e he => by cases he)
    cases ha
    cases hfile : t.file? r.id with
    | none => exact meets_fail ⟨hs, trivial⟩
    | some file =>
      refine meets_bind_of_quiet (run_lift _ _) (fun stored hstored => ?_)
        (fun e _ => ⟨hs, trivial⟩)
      by_cases heq : stored = r
      · simp only [heq, ne_eq, not_true_eq_false, if_false]
        subst heq
        have hput := hs.tail (.reverified stored _ ⟨file, hfile, hstored⟩ hsources
          (sameKnowledge_reverified stored currentCommit verifiedAt digest h))
        exact meets_bind (meets_write hput (meets_pure ⟨hput, trivial⟩))
      · simp only [ne_eq, heq, not_false_eq_true, if_true]
        exact meets_fail ⟨hs, trivial⟩
  · exact meets_pure ⟨hs, trivial⟩

/-- Reading every requested record writes nothing. -/
theorem run_mapM_get (l : List MemoryId) (s : MemoryDisk) :
    ∃ v, (l.mapM store.get).run s = ⟨[], v, s⟩ := by
  induction l with
  | nil => exact ⟨_, rfl⟩
  | cons i l ih =>
    obtain ⟨v, hv⟩ := ih
    rw [List.mapM_cons]
    cases hi : store.lookup i s with
    | error e => exact ⟨_, Prog.run_bind_of_error (by rw [run_get, hi])⟩
    | ok r =>
      rw [Prog.run_bind_of_ok (by rw [run_get, hi])]
      cases v with
      | error e => exact ⟨_, Prog.run_bind_of_error hv⟩
      | ok rs => exact ⟨_, Prog.run_bind_of_ok hv⟩

theorem moves_revalidate {currentCommit : List Char} {recordIds : List MemoryId}
    {verifiedAt : AwareTime} {digest : List Char → Option HexDigest} :
    Moves store op s
      (store.revalidate currentCommit recordIds verifiedAt digest) s fun _ _ => True := by
  unfold Moves revalidate
  split
  · exact meets_fail ⟨.refl, trivial⟩
  obtain ⟨v, hrun⟩ : ∃ v, (store.selected recordIds).run s = ⟨[], v, s⟩ := by
    unfold selected
    dsimp only
    split
    · exact run_mapM_get _ s
    · refine ⟨store.list false s, ?_⟩
      rw [Prog.run_bind_of_ok (a := store.list false s) rfl, run_lift]
  refine meets_bind_of_quiet hrun (fun records _ => ?_) (fun e _ => ⟨.refl, trivial⟩)
  refine (meets_mapM .refl ?_).mono (fun _ h => h) (fun _ _ h => ⟨h, trivial⟩)
  exact fun r t ht => (moves_revalidateRecord ht).mono (fun _ h => h) fun _ _ h => h.1

end Programs

section Operations

variable {store : CuratedMemoryStore} {op : MemoryOperation} {s t : MemoryDisk}

/-- Every directory is named by the proposal in it. -/
def MemoryDisk.Named (s : MemoryDisk) : Prop :=
  ∀ d, d ∈ s.staging ∨ d ∈ s.history → ∀ p, d.proposal = some p → p.id = d.id

theorem MemoryDisk.Named.staged (h : s.Named) {id : ProposalId} {p : MemoryProposal}
    (hp : s.staged? id = some p) : p.id = id :=
  h _ (.inl (mem_of_staged? hp)) p rfl

/-- Whatever an operation leaves is reached by its moves. -/
theorem MemoryOperation.Leaves.moves (h : op.Leaves store s t) (hnamed : s.Named) :
    ReflTransGen (MemoryMove store op s) s t := by
  have hall : Moves store op s (op.program store) s
      fun _ _ => True := by
    cases op with
    | save r =>
      have hop : (MemoryOperation.save r).Saves r := rfl
      exact (moves_save (.inl hop) .refl).mono (fun _ h => h) fun _ _ h => ⟨h.1, trivial⟩
    | propose r rationale policy evidence supersedes day now =>
      have hop : (MemoryOperation.propose r rationale policy evidence supersedes day
        now).Proposes := trivial
      exact meets_bind ((moves_propose hop).mono (fun _ h => h) fun v u h => by
        cases v with
        | error e => exact h
        | ok p => exact meets_pure h)
    | approve id reason now =>
      have hop : ∀ p, s.staged? id = some p →
          (MemoryOperation.approve id reason now).Approves s p :=
        fun _ hp => hp
      refine meets_bind ((moves_review (fun p hp _ => hop p hp) (fun p _ h => by cases h)
        fun p hp => hnamed.staged hp).mono (fun _ h => h) fun v u h => ?_)
      cases v with
      | error e => exact h
      | ok p => exact meets_pure h
    | reject id reason now =>
      have hop : ∀ p, s.staged? id = some p → (MemoryOperation.reject id reason now).Rejects s p :=
        fun _ hp => hp
      refine meets_bind ((moves_review (fun p _ h => by cases h) (fun p hp _ => hop p hp)
        fun p hp => hnamed.staged hp).mono (fun _ h => h) fun v u h => ?_)
      cases v with
      | error e => exact h
      | ok p => exact meets_pure h
    | revalidate currentCommit recordIds verifiedAt digest =>
      exact meets_bind (moves_revalidate.mono (fun _ h => h) fun v u h => by
        cases v with
        | error e => exact h
        | ok p => exact meets_pure h)
  rcases h with h | rfl
  · exact hall.1 t h
  · exact hall.2.1

end Operations

end Orqalis
