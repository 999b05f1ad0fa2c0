import Orqalis.Persistence.RoundTrip

/-!
# Recovery carries a marker out

Between the write of the marker and its removal every document of the commit is either old
or new, and the log is the committed one with some of the new events after it and perhaps
a part of a line (`Interrupted`). Every stop of a recovery leaves such a directory or the
finished one, so no number of stops matters.
-/

namespace Orqalis

open Lib Lib.Crash Lib.Outcome

/-! ## The documents of a marker -/

/-- The content of a stored document. -/
def StoredDocument.content : StoredDocument → Content
  | .encoded content _ => content
  | _ => .raw 0

/-- The documents of a commit as its marker stores them. -/
def storedDocuments (documents : Documents) : StoredDocuments :=
  Table.ofList (documents.entries.map fun d => (.document d.1, .encoded d.2 d.2))

/-- The assignments a marker carries out, in order. -/
def writes (documents : Documents) : List (Target × Content) :=
  (replacementOrder (storedDocuments documents)).map fun d => (d.1, d.2.content)

theorem storedDocuments_entries (documents : Documents) :
    (storedDocuments documents).entries =
      documents.entries.map fun d => (.document d.1, .encoded d.2 d.2) := by
  apply Table.entries_ofList
  rw [List.map_map]
  have hnodup := documents.nodup.map (f := Target.document) fun a b h => by cases h; rfl
  rwa [List.map_map] at hnodup

theorem mem_replacementOrder {documents : Documents} {d : Target × StoredDocument}
    (h : d ∈ replacementOrder (storedDocuments documents)) :
    ∃ e ∈ documents.entries, d = (.document e.1, .encoded e.2 e.2) := by
  have hd := (List.perm_insertionSort _ _).mem_iff.mp h
  rw [storedDocuments_entries] at hd
  obtain ⟨e, he, rfl⟩ := List.mem_map.mp hd
  exact ⟨e, he, rfl⟩

theorem mem_writes {documents : Documents} {e : DocumentName × Content}
    (h : e ∈ documents.entries) : (Target.document e.1, e.2) ∈ writes documents := by
  refine List.mem_map.mpr ⟨(.document e.1, .encoded e.2 e.2), ?_, rfl⟩
  refine (List.perm_insertionSort _ _).mem_iff.mpr ?_
  rw [storedDocuments_entries]
  exact List.mem_map_of_mem (f := fun d : DocumentName × Content =>
    (Target.document d.1, StoredDocument.encoded d.2 d.2)) h

theorem writes_nodup (documents : Documents) : ((writes documents).map Prod.fst).Nodup := by
  unfold writes
  rw [List.map_map]
  have hperm := (List.perm_insertionSort replacedBefore
    (storedDocuments documents).entries).map (fun d : Target × StoredDocument => d.1)
  exact hperm.nodup_iff.mpr (storedDocuments documents).nodup

/-- Replacing a document of a commit is one write. -/
theorem replaceDocument_eq {documents : Documents} {d : Target × StoredDocument}
    (h : d ∈ replacementOrder (storedDocuments documents)) :
    replaceDocument d = Prog.write (Capsule.putFile d.1 d.2.content) := by
  obtain ⟨e, -, rfl⟩ := mem_replacementOrder h
  simp [replaceDocument, relativeTarget, decodeDocument, Prog.lift, StoredDocument.content]

/-! ## The log of a marker -/

/-- Appending what is missing of a tail, whatever part of it is there. -/
theorem appendTail_meets {pre ahead rest : List EventRecord} {c : Capsule}
    (hahead : ahead <+: rest) (hlog : c.log = some ⟨(pre ++ ahead).map some, false⟩) :
    Meets (appendTail (pre ++ ahead) pre.length (rest.map some)) c
      (fun t => ∃ k torn, t = c.putLog ⟨(pre ++ rest.take k).map some, torn⟩)
      (fun v t => v = .ok () ∧ t = c.putLog ⟨(pre ++ rest).map some, false⟩) := by
  induction rest generalizing pre ahead c with
  | nil =>
    rw [List.prefix_nil] at hahead
    subst hahead
    exact meets_pure ⟨rfl, (Capsule.putLog_self hlog).symm⟩
  | cons v rest ih =>
    rw [List.map_cons, appendTail]
    cases ahead with
    | nil =>
      -- Nothing of the rest is there: the next record is appended.
      rw [List.append_nil] at hlog ⊢
      rw [if_neg (lt_irrefl _), if_neg (not_not.mpr rfl)]
      have happend : c.appendLog v = c.putLog ⟨(pre ++ [v]).map some, false⟩ := by
        simp [Capsule.appendLog, Capsule.appendRecord, hlog]
      refine meets_bind (meets_step ?_ ?_)
      · intro t ht
        simp only [Capsule.appendCuts, List.mem_cons, List.not_mem_nil, or_false] at ht
        rcases ht with rfl | rfl | rfl
        · exact ⟨0, false, by simpa using (Capsule.putLog_self hlog).symm⟩
        · exact ⟨0, true, by simp [hlog]⟩
        · exact ⟨1, false, by simp [happend]⟩
      · have hnext : (c.appendLog v).log = some ⟨(pre ++ [v] ++ []).map some, false⟩ := by
          rw [happend, Capsule.log_putLog, List.append_nil]
        have hih := ih (List.nil_prefix) hnext
        rw [List.append_nil, List.length_append, List.length_singleton] at hih
        refine hih.mono ?_ ?_
        · rintro t ⟨k, torn, ht⟩
          refine ⟨k + 1, torn, ?_⟩
          rw [ht, happend]
          simp
        · rintro value t ⟨hvalue, ht⟩
          refine ⟨hvalue, ?_⟩
          rw [ht, happend]
          simp
    | cons w ahead =>
      -- The log has the record already.
      obtain ⟨hw, htail⟩ := List.cons_prefix_cons.mp hahead
      subst hw
      rw [if_pos (by simp), if_neg (by simp)]
      have hnext : c.log = some ⟨(pre ++ [w] ++ ahead).map some, false⟩ := by
        simpa using hlog
      have hih := ih htail hnext
      rw [List.append_assoc, List.singleton_append, List.length_append,
        List.length_singleton] at hih
      refine hih.mono ?_ ?_
      · rintro t ⟨k, torn, ht⟩
        exact ⟨k + 1, torn, by simpa using ht⟩
      · rintro value t ⟨hvalue, ht⟩
        exact ⟨hvalue, by simpa using ht⟩

/-- What a stop can leave of a log whose committed lines are `base` and whose new ones are
`tail`. -/
def Partial (base tail : List EventRecord) (c t : Capsule) : Prop :=
  ∃ k torn, t = c.putLog ⟨(base ++ tail.take k).map some, torn⟩

theorem mapM_some (l : List EventRecord) (e : Error) :
    (l.map some).mapM (fun
      | some r => Except.ok r
      | none => .error e) = Except.ok l := by
  induction l with
  | nil => rfl
  | cons r l ih =>
    rw [List.map_cons, List.mapM_cons, ih]
    rfl

theorem eq_map_some_of_mapM {l : List (Option EventRecord)} {records : List EventRecord}
    {e : Error}
    (h : l.mapM (fun
      | some r => Except.ok r
      | none => .error e) = Except.ok records) : l = records.map some := by
  have hall := forall₂_of_mapM_eq_ok h
  clear h
  induction hall with
  | nil => rfl
  | @cons line record _ _ hline _ ih =>
    cases line with
    | none => cases hline
    | some r =>
      cases hline
      rw [List.map_cons, ← ih]

/-- Reading the log gives the committed records and the new ones that are whole; a torn
line costs the new ones. -/
theorem recoveredRecords_meets {base tail : List EventRecord} {c : Capsule} {k : Nat}
    {torn : Bool} (hlog : c.log = some ⟨(base ++ tail.take k).map some, torn⟩) :
    Meets (recoveredRecords base.length) c (Partial base tail c)
      (fun v t => ∃ ahead, ahead <+: tail ∧ v = .ok (base ++ ahead) ∧
        t = c.putLog ⟨(base ++ ahead).map some, false⟩) := by
  refine meets_bind (meets_read ?_)
  cases torn with
  | false =>
    have hread : c.readJsonl = .ok (base ++ tail.take k) := by
      simp only [Capsule.readJsonl, hlog, Bool.false_eq_true, if_false]
      exact mapM_some _ _
    simp only [hread]
    exact meets_pure ⟨_, List.take_prefix k tail, rfl, (Capsule.putLog_self hlog).symm⟩
  | true =>
    have hread : c.readJsonl = .error (.format "JSONL file ends with an incomplete record") := by
      simp [Capsule.readJsonl, hlog]
    have hhead : c.prefixRecords base.length = .ok base := by
      have hlength : ¬ ((base ++ tail.take k).map some).length < base.length := by simp
      have htake : ((base ++ tail.take k).map some).take base.length = base.map some := by
        simp [List.map_append]
      simp only [Capsule.prefixRecords, hlog, if_neg hlength, htake]
      exact mapM_some _ _
    simp only [hread]
    refine meets_bind (meets_read ?_)
    simp only [hhead]
    refine meets_bind (meets_write ⟨0, false, by simp⟩ ?_)
    exact meets_pure ⟨[], List.nil_prefix, by simp, by simp⟩

/-- The log ends with every committed and every new record, each once, whatever part of
the new ones was there. -/
theorem recoverLog_meets {base tail : List EventRecord} {c : Capsule}
    (hlog : (c.log = none ∧ base = []) ∨
      ∃ k torn, c.log = some ⟨(base ++ tail.take k).map some, torn⟩) :
    Meets (recoverLog base.length (tail.map some)) c (Partial base tail c)
      (fun v t => v = .ok () ∧ t = c.putLog ⟨(base ++ tail).map some, false⟩) := by
  -- From a log that exists: read it, then append what is missing.
  have hpresent : ∀ d : Capsule, Partial base tail c d →
      Meets (do
        let existing ← recoveredRecords base.length
        if existing.length < base.length then
          Prog.fail (.conflict "Task Capsule event log is missing committed history")
        else
          appendTail existing base.length (tail.map some)) d (Partial base tail c)
        (fun v t => v = .ok () ∧ t = c.putLog ⟨(base ++ tail).map some, false⟩) := by
    rintro d ⟨k, torn, rfl⟩
    refine meets_bind ((recoveredRecords_meets (Capsule.log_putLog ..)).mono ?_ ?_)
    · intro t ⟨k', torn', ht⟩
      exact ⟨k', torn', ht⟩
    · rintro v t ⟨ahead, hahead, rfl, rfl⟩
      have hlength : ¬ (base ++ ahead).length < base.length := by simp
      simp only [if_neg hlength]
      refine (appendTail_meets hahead (Capsule.log_putLog ..)).mono ?_ ?_
      · intro t ⟨k', torn', ht⟩
        exact ⟨k', torn', ht⟩
      · intro v t ⟨hv, ht⟩
        exact ⟨hv, ht⟩
  refine meets_bind (meets_read ?_)
  rcases hlog with ⟨hnone, rfl⟩ | ⟨k, torn, hsome⟩
  · simp only [hnone, Option.isNone_none, if_true]
    refine meets_bind (meets_write ⟨0, false, by simp⟩ ?_)
    exact hpresent _ ⟨0, false, by simp⟩
  · simp only [hsome, Option.isNone_some, Bool.false_eq_true, if_false]
    exact hpresent c ⟨k, torn, (Capsule.putLog_self hsome).symm⟩

/-! ## Between the marker and its end -/

section Commit

variable (old : Capsule) (a : Aggregate) (documents : Documents)

/-- The marker of the commit. -/
def commitMarker : Marker := .transaction (a.transaction (a.generation + 1) documents)

/-- The lines of the events the disk had before the commit. -/
def committedLines : List EventRecord :=
  (a.records.events.take a.persistedEventCount).map eventRecord

/-- The lines the commit adds. -/
def addedLines : List EventRecord :=
  (a.records.events.drop a.persistedEventCount).map eventRecord

/-- A directory in which the commit's marker is durable and not yet carried out. -/
structure Interrupted (c : Capsule) : Prop where
  marker : c.marker = some (commitMarker a documents)
  files : replay (writes documents) c.files = replay (writes documents) old.files
  each : ∀ k, c.files k = old.files k ∨ c.files k = replay (writes documents) old.files k
  log : (c.log = none ∧ committedLines a = []) ∨
    ∃ k torn, c.log = some ⟨(committedLines a ++ (addedLines a).take k).map some, torn⟩

/-- The directory of the finished commit. -/
def finished : Capsule :=
  ⟨replay (writes documents) old.files,
    some ⟨(committedLines a ++ addedLines a).map some, false⟩, none⟩

/-- What a stop can leave once the marker is durable. -/
def RolledForward (c : Capsule) : Prop :=
  Interrupted old a documents c ∨ c = finished old a documents

end Commit

section Recover

variable {old : Capsule} {a : Aggregate} {documents : Documents} {c : Capsule}

/-- The documents are replaced one at a time. -/
theorem replaceDocuments_meets (h : Interrupted old a documents c) :
    Meets (forM (replacementOrder (storedDocuments documents)) replaceDocument) c
      (Interrupted old a documents)
      (fun v t => v = .ok () ∧ t.files = replay (writes documents) old.files ∧
        t.log = c.log ∧ t.marker = c.marker) := by
  let content (d : Target × StoredDocument) : Target × Content := (d.1, d.2.content)
  -- What remains, and what the files are after the documents done so far.
  apply meets_forM fun rest t =>
    ∃ done, replacementOrder (storedDocuments documents) = done ++ rest ∧
      t = { c with files := replay (done.map content) c.files }
  · exact ⟨[], rfl, rfl⟩
  · rintro d rest t ⟨done, horder, rfl⟩
    have hd : d ∈ replacementOrder (storedDocuments documents) := by
      rw [horder]
      exact List.mem_append_right done List.mem_cons_self
    have hfiles : Capsule.putFile d.1 d.2.content
        { c with files := replay (done.map content) c.files } =
        { c with files := replay ((done ++ [d]).map content) c.files } := by
      simp only [Capsule.putFile, List.map_append, List.map_singleton, replay_append]
      rfl
    have hwrites : writes documents = (done ++ [d]).map content ++ rest.map content := by
      unfold writes
      rw [horder]
      simp [content]
    rw [replaceDocument_eq hd]
    refine meets_write ?_ ?_
    · rw [hfiles]
      exact
        { marker := h.marker
          files := (replay_of_suffix hwrites c.files).trans h.files
          each := fun k => by
            rcases replay_prefix (writes_nodup documents) hwrites c.files old.files k with
              hkeep | hnew
            · rcases h.each k with hold | hnew
              · exact .inl (hkeep.trans hold)
              · exact .inr (hkeep.trans hnew)
            · exact .inr hnew
          log := h.log }
    · exact ⟨done ++ [d], by simpa using horder, hfiles⟩
  · rintro t ⟨done, horder, rfl⟩
    have hdone : done.map content = writes documents := by
      unfold writes
      rw [horder, List.append_nil]
    refine ⟨rfl, ?_, rfl, rfl⟩
    rw [hdone, h.files]

/-- RECOVERY ROLLS FORWARD: from a directory with a durable marker it ends in the finished
one, and every stop leaves one it rolls forward again. -/
theorem recover_interrupted (hpersisted : a.persistedEventCount ≤ a.records.events.length)
    (h : Interrupted old a documents c) :
    Meets recover c (RolledForward old a documents)
      (fun v t => v = .ok () ∧ t = finished old a documents) := by
  refine meets_bind (meets_read ?_)
  rw [h.marker]
  have hdocuments : (a.transaction (a.generation + 1) documents).documents =
      .value (storedDocuments documents) := rfl
  have hbase : (a.transaction (a.generation + 1) documents).eventBaseSequence =
      .value a.persistedEventCount := rfl
  have htail : (a.transaction (a.generation + 1) documents).events =
      .value ((addedLines a).map some) := by
    simp only [Aggregate.transaction, addedLines, List.map_map]
    rfl
  have hcount : (a.persistedEventCount : Int).toNat = (committedLines a).length := by
    simp [committedLines, hpersisted]
  have hversion : ¬ (a.transaction (a.generation + 1) documents).schemaVersion ≠
      .value taskSchemaVersion := not_not.mpr rfl
  have hnonneg : ¬ ((a.persistedEventCount : Int) < 0) := by omega
  simp only [commitMarker, applyTransaction, if_neg hversion, hdocuments, hbase, htail,
    if_neg hnonneg, hcount]
  refine meets_bind ((replaceDocuments_meets h).mono (fun t ht => .inl ht) ?_)
  rintro v t ⟨rfl, hfiles, hlog, hmarker⟩
  have hstart : (t.log = none ∧ committedLines a = []) ∨
      ∃ k torn, t.log = some ⟨(committedLines a ++ (addedLines a).take k).map some, torn⟩ :=
    hlog ▸ h.log
  refine meets_bind ((recoverLog_meets hstart).mono ?_ ?_)
  · rintro u ⟨k, torn, rfl⟩
    refine .inl ⟨hmarker.trans h.marker, ?_, fun k => .inr ?_, .inr ⟨k, torn, rfl⟩⟩
    · show replay (writes documents) t.files = replay (writes documents) old.files
      rw [hfiles]
      exact replay_of_suffix (List.append_nil _).symm old.files
    · show t.files k = replay (writes documents) old.files k
      rw [hfiles]
  · rintro v u ⟨rfl, rfl⟩
    have hend : Capsule.dropMarker
        (t.putLog ⟨(committedLines a ++ addedLines a).map some, false⟩) =
        finished old a documents := by
      simp [Capsule.dropMarker, Capsule.putLog, finished, hfiles]
    exact meets_write (.inr hend) ⟨rfl, hend⟩

/-- A finished directory has nothing to recover. -/
theorem recover_finished :
    (recover.run (finished old a documents)) = ⟨[], .ok (), finished old a documents⟩ := rfl

/-- No number of stopped recoveries leaves what recovery rolls forward. -/
theorem rolledForward_recover (hpersisted : a.persistedEventCount ≤ a.records.events.length)
    (h : RolledForward old a documents c) :
    Meets recover c (RolledForward old a documents)
      (fun v t => v = .ok () ∧ t = finished old a documents) := by
  rcases h with h | rfl
  · exact recover_interrupted hpersisted h
  · unfold Meets
    rw [recover_finished]
    exact ⟨by simp, rfl, rfl⟩

end Recover

end Orqalis
