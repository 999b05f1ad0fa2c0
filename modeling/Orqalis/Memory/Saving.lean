import Orqalis.Memory.Supersession

/-!
# Saving a record and getting it back

`run_save_new`, `run_save_stored` and `run_save_conflict` are the outcomes of a save whose
checks pass. A record that was already there is compared with its file and nothing is
written. A new one is written, and what `get` answers then differs from it by what the file
loses: `save_get_iff` says that a save is a round trip exactly when it finds the record in
place or the record is `Faithful`.
-/

namespace Orqalis

open Lib Lib.Crash Lib.Text Relation CuratedMemoryStore

/-- The file of the record loses nothing: no carriage return in the title or the content,
and no white space around the content. -/
def DurableMemoryRecord.Faithful (r : DurableMemoryRecord) : Prop :=
  '\r' ∉ r.title ∧ '\r' ∉ r.content ∧ Text.strip r.content = r.content

instance (r : DurableMemoryRecord) : Decidable r.Faithful := by
  unfold DurableMemoryRecord.Faithful
  infer_instance

theorem DurableMemoryRecord.faithful_iff {r : DurableMemoryRecord} :
    r.Faithful ↔ reread r.title r.content = r.content :=
  (reread_eq_self r.filled).symm

/-- A record's file reads as the record exactly when it is faithful. -/
theorem parseRecord_eq_self {name : String} {r : DurableMemoryRecord} :
    parseRecord name (frontmatter r) = .ok r ↔ r.Faithful := by
  rw [DurableMemoryRecord.faithful_iff]
  constructor
  · intro h
    obtain ⟨hne, hr⟩ := parseRecord_eq_ok h
    exact (congrArg DurableMemoryRecord.content hr).symm
  · intro h
    have hne : reread r.title r.content ≠ [] := by
      rw [h]
      exact r.filled
    have hself : r.withContent (reread r.title r.content) hne = r := by
      obtain ⟨id, category, title, content⟩ := r
      simp only [DurableMemoryRecord.withContent] at h ⊢
      simp only [h]
    rw [parseRecord_ok name hne, hself]

namespace CuratedMemoryStore

variable {store : CuratedMemoryStore} {s : MemoryDisk} {r : DurableMemoryRecord}

/-- What a save checks before it looks at the record's file. -/
structure Savable (store : CuratedMemoryStore) (s : MemoryDisk) (r : DurableMemoryRecord) :
    Prop where
  safe : store.ensureRecordSafe r [] = .ok ()
  sources : store.validateSources r = .ok ()
  references : ∀ i ∈ r.references, ∃ q, store.lookup i s = .ok q

/-- After its checks a save looks at the record's file. -/
theorem run_save (h : Savable store s r) :
    (store.save r).run s = (keepFile r (s.file? r.id)).run s := by
  obtain ⟨v, hrun, hiff⟩ := store.run_validateReferences r s
  rw [hiff.mpr h.references] at hrun
  unfold save
  rw [Prog.run_bind_of_ok (by rw [run_lift, h.safe]),
    Prog.run_bind_of_ok (by rw [run_lift, h.sources]),
    Prog.run_bind_of_ok hrun, Prog.run_bind_of_ok (a := s.file? r.id) rfl]

theorem run_save_new (h : Savable store s r) (hfile : s.file? r.id = none) :
    (store.save r).run s =
      ⟨[s.putRecord r.id (frontmatter r)], .ok ⟨⟩, s.putRecord r.id (frontmatter r)⟩ := by
  rw [run_save h, hfile]
  rfl

theorem run_save_stored (h : Savable store s r) (hread : s.Reads r.id r) :
    (store.save r).run s = ⟨[], .ok ⟨⟩, s⟩ := by
  obtain ⟨file, hfile, hread⟩ := hread
  rw [run_save h, hfile, keepFile]
  rw [Prog.run_bind_of_ok (by rw [run_lift, hread])]
  simp

/-- A save that finds another record in place raises. -/
theorem run_save_conflict (h : Savable store s r) (hfile : (s.file? r.id).isSome)
    (hread : ¬ s.Reads r.id r) : ∃ e, (store.save r).run s = ⟨[], .error e, s⟩ := by
  obtain ⟨file, hfile⟩ := Option.isSome_iff_exists.mp hfile
  rw [run_save h, hfile, keepFile]
  cases hparse : parseRecord (fileName r.id) file with
  | error e => exact ⟨e, Prog.run_bind_of_error (by rw [run_lift])⟩
  | ok q =>
    have hne : q ≠ r := by
      rintro rfl
      exact hread ⟨file, hfile, hparse⟩
    rw [Prog.run_bind_of_ok (by rw [run_lift])]
    simp only [ne_eq, hne, not_false_eq_true, if_true]
    exact ⟨_, rfl⟩

/-- A save goes no further than its first failing check. -/
theorem run_save_unsavable (h : ¬ Savable store s r) :
    ∃ e, (store.save r).run s = ⟨[], .error e, s⟩ := by
  unfold save
  cases hsafe : store.ensureRecordSafe r [] with
  | error e => exact ⟨e, Prog.run_bind_of_error (by rw [run_lift])⟩
  | ok _ =>
    rw [Prog.run_bind_of_ok (by rw [run_lift])]
    cases hsources : store.validateSources r with
    | error e => exact ⟨e, Prog.run_bind_of_error (by rw [run_lift])⟩
    | ok _ =>
      rw [Prog.run_bind_of_ok (by rw [run_lift])]
      obtain ⟨v, hrun, hiff⟩ := store.run_validateReferences r s
      cases v with
      | error e => exact ⟨e, Prog.run_bind_of_error hrun⟩
      | ok _ => exact absurd ⟨hsafe, hsources, hiff.mp rfl⟩ h

/-- A save that went through checked all it checks, and found the record or no file. -/
theorem savable_of_ok (h : ((store.save r).run s).value = .ok ⟨⟩) :
    Savable store s r ∧ (s.file? r.id = none ∨ s.Reads r.id r) := by
  by_cases hsavable : Savable store s r
  · refine ⟨hsavable, ?_⟩
    cases hfile : s.file? r.id with
    | none => exact .inl rfl
    | some file =>
      by_cases hread : s.Reads r.id r
      · exact .inr hread
      · obtain ⟨e, hrun⟩ := run_save_conflict hsavable (by simp [hfile]) hread
        rw [hrun] at h
        cases h
  · obtain ⟨e, hrun⟩ := run_save_unsavable hsavable
    rw [hrun] at h
    cases h

end CuratedMemoryStore

section RoundTrip

variable {store : CuratedMemoryStore} {s : MemoryDisk} {r : DurableMemoryRecord}

/-- What a reader expects of a record that was saved: it is got back, saving it again does
nothing, and a store that could be listed still can. -/
structure RoundTrip (store : CuratedMemoryStore) (s t : MemoryDisk) (r : DurableMemoryRecord) :
    Prop where
  got : ((store.get r.id).run t).value = .ok r
  again : (store.save r).run t = ⟨[], .ok ⟨⟩, t⟩
  lists : ∀ includeInactive, (∃ rs, store.list includeInactive s = .ok rs) →
    ∃ rs, store.list includeInactive t = .ok rs

/-- A record that is got back from its own text is faithful. -/
theorem faithful_of_got {t : MemoryDisk} (hfile : t.file? r.id = some (frontmatter r))
    (h : RoundTrip store s t r) : r.Faithful := by
  have hgot := h.got
  rw [run_get] at hgot
  obtain ⟨file, hfile', hread, -⟩ := lookup_eq_ok.mp hgot
  rw [hfile] at hfile'
  rw [← Option.some.inj hfile'] at hread
  exact parseRecord_eq_self.mp hread

/-- Whatever happened to the store before, a save it accepts is a round trip exactly when
the record is there already or its file loses nothing. -/
theorem save_get_iff (hrun : ReflTransGen (MemoryStep store) {} s)
    (haccepted : ((store.save r).run s).value = .ok ⟨⟩) :
    RoundTrip store s ((store.save r).run s).disk r ↔ (s.file? r.id).isSome ∨ r.Faithful := by
  have hkept := kept_of_run hrun
  obtain ⟨hsavable, hnew | hread⟩ := savable_of_ok haccepted
  · have hsaved := run_save_new hsavable hnew
    have hst : Standing store s (s.putRecord r.id (frontmatter r)) := .stored hnew
    have hfile : (s.putRecord r.id (frontmatter r)).file? r.id = some (frontmatter r) :=
      MemoryDisk.file?_putRecord_self _ _ _
    rw [hsaved]
    simp only [hnew, Option.isSome_none, Bool.false_eq_true, false_or]
    constructor
    · exact faithful_of_got hfile
    · intro hfaithful
      have hreads : (s.putRecord r.id (frontmatter r)).Reads r.id r :=
        ⟨_, hfile, parseRecord_eq_self.mpr hfaithful⟩
      have hsavable' : Savable store (s.putRecord r.id (frontmatter r)) r :=
        ⟨hsavable.safe, hsavable.sources, fun i hi => by
          obtain ⟨q, hq⟩ := hsavable.references i hi
          exact hst.found i q hq⟩
      refine ⟨?_, run_save_stored hsavable' hreads, fun includeInactive ⟨rs, hrs⟩ => ?_⟩
      · rw [run_get]
        exact lookup_eq_ok.mpr ⟨_, hfile, parseRecord_eq_self.mpr hfaithful, hsavable.sources⟩
      · have hreadable : (s.putRecord r.id (frontmatter r)).Readable := by
          intro i hi
          by_cases hid : r.id = i
          · exact ⟨r, hid ▸ hreads⟩
          · rw [MemoryDisk.file?_putRecord_ne s hid] at hi
            obtain ⟨q, file, hq, hqread⟩ := readable_of_list hrs i hi
            exact ⟨q, file, by rwa [MemoryDisk.file?_putRecord_ne s hid], hqread⟩
        obtain ⟨rs', hrs', -⟩ :=
          (hkept.putRecord hst hsavable.sources).list hreadable includeInactive
        exact ⟨rs', hrs'⟩
  · have hsaved := run_save_stored hsavable hread
    obtain ⟨file, hfile, hparse⟩ := hread
    rw [hsaved]
    refine iff_of_true ⟨?_, hsaved, fun _ h => h⟩ (.inl (by simp [hfile]))
    rw [run_get]
    exact lookup_eq_ok.mpr ⟨file, hfile, hparse, hsavable.sources⟩

/-- A record that is saved into the empty store and got back. -/
theorem sampleMemory_save_get :
    RoundTrip sampleMemoryStore {}
      ((sampleMemoryStore.save (sampleMemory "Use two blanks.".toList (by decide))).run {}).disk
      (sampleMemory "Use two blanks.".toList (by decide)) :=
  (save_get_iff .refl rfl).mpr (.inr (by decide))

/-- A content that ends in a line feed is saved, and not got back. -/
theorem sampleMemory_trimmed :
    ((sampleMemoryStore.save (sampleMemory "Tabs\n".toList (by decide))).run
        {}).value = .ok ⟨⟩ ∧
      ¬ RoundTrip sampleMemoryStore {}
        ((sampleMemoryStore.save (sampleMemory "Tabs\n".toList (by decide))).run
          {}).disk (sampleMemory "Tabs\n".toList (by decide)) := by
  refine ⟨rfl, fun h => ?_⟩
  have hfile : ((sampleMemoryStore.save (sampleMemory "Tabs\n".toList
      (by decide))).run {}).disk.file? (sampleMemory "Tabs\n".toList (by decide)).id =
      some (frontmatter (sampleMemory "Tabs\n".toList (by decide))) :=
    MemoryDisk.file?_putRecord_self {} _ _
  have hfaithful := faithful_of_got hfile h
  have hstrip : Text.strip "Tabs\n".toList = "Tabs\n".toList := hfaithful.2.2
  exact absurd hstrip (by decide)

end RoundTrip

end Orqalis
