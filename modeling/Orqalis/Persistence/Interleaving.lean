import Orqalis.Persistence.Histories

/-!
# Steps of interleaved sessions

The invariant of the sessions over a store, kept by every step. It follows the locks: a
section's thread holds the lock of its capsule and no other thread does, so the directory a
section was begun on is the one its writes go to.
-/

namespace Orqalis

open Lib Lib.Crash Relation

variable {ι θ : Type}

/-! ## The invariant -/

section Invariant

variable (thread : ι → θ) (safe : String → Bool) (secretSafe : StateDocument → Bool)

/-- What a session holds of a run. -/
def World.held (W : World ι θ) (i : ι) (runId : UUID) : Option Aggregate :=
  (W.members i).session.capsules.get? runId

/-- A held aggregate of a run that has no committed capsule yet, unless its session is in the
section that commits it. -/
def World.HeldNew (W : World ι θ) (i : ι) (a : Aggregate) : Prop :=
  a.isNew = true ∧ W.store.capsules.has a.capsuleId = true ∧
    (∃ run : Run, run.lastEventSequence = 0 ∧ Derived safe (newAggregate a.capsuleId run) a) ∧
    (W.history a.capsuleId = [] ∨
      ∃ s b, W.sections (thread i) = some s ∧ s.owner = i ∧ s.capsule = a.capsuleId ∧
        s.purpose = .commit ∧ s.value = .ok b ∧ b.records.run.id = a.records.run.id)

/-- What holds of a section under way. -/
structure World.SectionOk (W : World ι θ) (t : θ) (s : Section ι) : Prop where
  owner : thread s.owner = t
  lock : s.capsule ∈ (W.members s.owner).locks
  pending : Pending safe secretSafe s.capsule (W.history s.capsule) s.pending
  origin : W.history s.capsule ≠ [] ∨ ∃ r a, W.held s.owner r = some a ∧ a.isNew = true ∧
    a.capsuleId = s.capsule
  answer : ∀ b, s.value = .ok b → s.purpose = .check ∨
    Current safe (after (W.history s.capsule) s.pending) b ∧ b.capsuleId = s.capsule
  effect : (∃ w ∈ s.pending, w.committed ≠ none) → s.purpose = .commit ∧
    ∃ b r a, s.value = .ok b ∧ W.held s.owner r = some a ∧ a.capsuleId = s.capsule ∧
      b.records.run.id = a.records.run.id

/-- The invariant of the sessions over a store. -/
structure World.Inv (W : World ι θ) : Prop where
  locks : ∀ i j id, id ∈ (W.members i).locks → id ∈ (W.members j).locks → thread i = thread j
  chain : ∀ id, Chain safe id (W.history id)
  disk : ∀ id, OnDisk safe secretSafe (W.store.capsule id) (W.history id)
  kept : ∀ id, W.history id ≠ [] → W.store.capsules.has id = true
  sections : ∀ t s, W.sections t = some s → W.SectionOk thread safe secretSafe t s
  held : ∀ i r a, W.held i r = some a →
    Current safe (W.history a.capsuleId) a ∨ W.HeldNew thread safe i a
  fresh : ∀ i j r r' a b, W.held i r = some a → W.held j r' = some b → a.isNew = true →
    b.isNew = true → a.capsuleId = b.capsuleId → i = j ∧ r = r'

end Invariant

section Steps

variable {thread : ι → θ} {safe : String → Bool} {secretSafe : StateDocument → Bool}
  {W W' : World ι θ}

theorem World.inv_initial : (World.initial ι θ).Inv thread safe secretSafe where
  locks := by simp [World.initial]
  chain := fun _ => .nil
  disk := fun _ => rfl
  kept := by simp [World.initial]
  sections := by simp [World.initial]
  held := by simp [World.initial, World.held]
  fresh := by simp [World.initial, World.held]

/-- The invariant is about the capsules, the held aggregates, the locks, the sections and the
histories. -/
theorem World.Inv.congr (h : W.Inv thread safe secretSafe)
    (hstore : W'.store.capsules = W.store.capsules)
    (hheld : ∀ i, (W'.members i).session.capsules = (W.members i).session.capsules)
    (hlocks : ∀ i, (W'.members i).locks = (W.members i).locks)
    (hsections : W'.sections = W.sections) (hhistory : W'.history = W.history) :
    W'.Inv thread safe secretSafe := by
  have hheld : ∀ i r, W'.held i r = W.held i r := fun i r => by simp [World.held, hheld]
  have hcapsule : ∀ id, W'.store.capsule id = W.store.capsule id :=
    fun id => by simp [Store.capsule, hstore]
  constructor
  · simpa only [hlocks] using h.locks
  · simpa only [hhistory] using h.chain
  · simpa only [hhistory, hcapsule] using h.disk
  · simpa only [hhistory, hstore] using h.kept
  · intro t s hs
    rw [hsections] at hs
    have hok := h.sections t s hs
    exact
      { owner := hok.owner
        lock := by rw [hlocks]; exact hok.lock
        pending := by rw [hhistory]; exact hok.pending
        origin := by simpa only [hhistory, hheld] using hok.origin
        answer := by rw [hhistory]; exact hok.answer
        effect := by simpa only [hheld] using hok.effect }
  · simpa only [hheld, hhistory, World.HeldNew, hsections, hstore] using h.held
  · simpa only [hheld] using h.fresh

/-- A session whose thread is in no section owns none. -/
theorem World.Inv.owner_ne (h : W.Inv thread safe secretSafe) {i : ι}
    (hidle : W.sections (thread i) = none) {t : θ} {s : Section ι} (hs : W.sections t = some s) :
    s.owner ≠ i := by
  rintro rfl
  rw [(h.sections t s hs).owner, hs] at hidle
  cases hidle

/-- A new aggregate of an idle session has no history yet. -/
theorem World.Inv.new_of_idle (h : W.Inv thread safe secretSafe) {i : ι} {r : UUID}
    {a : Aggregate} (hidle : W.sections (thread i) = none) (ha : W.held i r = some a)
    (hnew : a.isNew = true) :
    W.store.capsules.has a.capsuleId = true ∧ W.history a.capsuleId = [] ∧
      ∃ run : Run, run.lastEventSequence = 0 ∧
        Derived safe (newAggregate a.capsuleId run) a := by
  rcases h.held i r a ha with hcurrent | ⟨-, hhas, hderived, hhistory | ⟨s, b, hs, -⟩⟩
  · rw [hcurrent.1] at hnew
    cases hnew
  · exact ⟨hhas, hhistory, hderived⟩
  · rw [hidle] at hs
    cases hs

/-- Two sections on one capsule are one: both hold its lock. -/
theorem World.Inv.section_unique (h : W.Inv thread safe secretSafe) {t t' : θ}
    {s s' : Section ι} (hs : W.sections t = some s) (hs' : W.sections t' = some s')
    (hcapsule : s'.capsule = s.capsule) : t' = t := by
  have hok := h.sections t s hs
  have hok' := h.sections t' s' hs'
  have hlock := hok'.lock
  rw [hcapsule] at hlock
  rw [← hok.owner, ← hok'.owner]
  exact h.locks _ _ _ hlock hok.lock

/-- The key a held aggregate is held under. -/
theorem World.run_of_held {i : ι} {r : UUID} {a : Aggregate} (h : W.held i r = some a) :
    a.records.run.id = r :=
  @Table.key_of_get? _ _ (fun a : Aggregate => a.records.run.id) _ _ _ _ h

variable [DecidableEq ι] [DecidableEq θ]

/-! ## Steps of an idle session -/

omit [DecidableEq θ] in
@[simp] theorem World.held_setMember_self (W : World ι θ) (i : ι) (m : Member) (r : UUID) :
    (W.setMember i m).held i r = m.session.capsules.get? r := by
  simp [World.held, World.setMember]

omit [DecidableEq θ] in
theorem World.held_setMember_ne (W : World ι θ) {i j : ι} (m : Member) (h : j ≠ i) (r : UUID) :
    (W.setMember i m).held j r = W.held j r := by
  simp [World.held, World.setMember, h]

omit [DecidableEq θ] in
/-- An idle session may let go of locks and of aggregates, and change those it holds. -/
theorem World.Inv.setMember (h : W.Inv thread safe secretSafe) {i : ι} (m : Member)
    (hidle : W.sections (thread i) = none)
    (hlocks : ∀ id ∈ m.locks, id ∈ (W.members i).locks)
    (hheld : ∀ r a, m.session.capsules.get? r = some a →
      Current safe (W.history a.capsuleId) a ∨
        a.isNew = true ∧ ∃ b, W.held i r = some b ∧ b.isNew = true ∧
          a.capsuleId = b.capsuleId ∧ ∀ base, Derived safe base b → Derived safe base a) :
    (W.setMember i m).Inv thread safe secretSafe := by
  have hlock : ∀ j id, id ∈ ((W.setMember i m).members j).locks → id ∈ (W.members j).locks := by
    intro j id hid
    by_cases hj : j = i
    · subst hj
      exact hlocks id (by simpa [World.setMember] using hid)
    · simpa [World.setMember, hj] using hid
  have hnew : ∀ j r a, (W.setMember i m).held j r = some a → a.isNew = true →
      ∃ b, W.held j r = some b ∧ b.isNew = true ∧ a.capsuleId = b.capsuleId := by
    intro j r a ha hanew
    by_cases hj : j = i
    · subst hj
      rw [World.held_setMember_self] at ha
      rcases hheld r a ha with hcurrent | ⟨-, b, hb, hbnew, hid, -⟩
      · rw [hcurrent.1] at hanew
        cases hanew
      · exact ⟨b, hb, hbnew, hid⟩
    · rw [World.held_setMember_ne W m hj] at ha
      exact ⟨a, ha, hanew, rfl⟩
  constructor
  · intro j k id hj hk
    exact h.locks j k id (hlock j id hj) (hlock k id hk)
  · exact h.chain
  · exact h.disk
  · exact h.kept
  · intro t s hs
    have hok := h.sections t s hs
    have hne := h.owner_ne hidle hs
    have hsame : ∀ r, (W.setMember i m).held s.owner r = W.held s.owner r :=
      World.held_setMember_ne W m hne
    exact
      { owner := hok.owner
        lock := by simpa [World.setMember, hne] using hok.lock
        pending := hok.pending
        origin := by simp only [hsame]; exact hok.origin
        answer := hok.answer
        effect := by simpa only [hsame] using hok.effect }
  · intro j r a ha
    by_cases hj : j = i
    · subst hj
      rw [World.held_setMember_self] at ha
      rcases hheld r a ha with hcurrent | ⟨hanew, b, hb, hbnew, hid, hderived⟩
      · exact .inl hcurrent
      · obtain ⟨hhas, hhistory, run, hcursor, hrun⟩ := h.new_of_idle hidle hb hbnew
        rw [← hid] at hhas hhistory hrun
        exact .inr ⟨hanew, hhas, ⟨run, hcursor, hderived _ hrun⟩, .inl hhistory⟩
    · rw [World.held_setMember_ne W m hj] at ha
      exact h.held j r a ha
  · intro j k r r' a b ha hb hanew hbnew hid
    obtain ⟨a', ha', hanew', hida⟩ := hnew j r a ha hanew
    obtain ⟨b', hb', hbnew', hidb⟩ := hnew k r' b hb hbnew
    exact h.fresh j k r r' a' b' ha' hb' hanew' hbnew' (by rw [← hida, ← hidb, hid])

/-! ## Sections -/

/-- A section may begin when its writes fit the history and no other thread has the lock. -/
theorem World.Inv.enter (h : W.Inv thread safe secretSafe) (s : Section ι)
    (hidle : W.sections (thread s.owner) = none) (hfree : W.Free thread s.owner s.capsule)
    (hpending : Pending safe secretSafe s.capsule (W.history s.capsule) s.pending)
    (horigin : W.history s.capsule ≠ [] ∨ ∃ r a, W.held s.owner r = some a ∧ a.isNew = true ∧
      a.capsuleId = s.capsule)
    (hanswer : ∀ b, s.value = .ok b → s.purpose = .check ∨
      Current safe (after (W.history s.capsule) s.pending) b ∧ b.capsuleId = s.capsule)
    (heffect : (∃ w ∈ s.pending, w.committed ≠ none) → s.purpose = .commit ∧
      ∃ b r a, s.value = .ok b ∧ W.held s.owner r = some a ∧ a.capsuleId = s.capsule ∧
        b.records.run.id = a.records.run.id) :
    (W.enter thread s).Inv thread safe secretSafe := by
  have hheld : ∀ j r, (W.enter thread s).held j r = W.held j r := by
    intro j r
    by_cases hj : j = s.owner
    · subst hj
      simp [World.held, World.enter, World.setMember, World.setSection]
    · simp [World.held, World.enter, World.setMember, World.setSection, hj]
  have hlock : ∀ j id, id ∈ ((W.enter thread s).members j).locks →
      id ∈ (W.members j).locks ∨ j = s.owner ∧ id = s.capsule := by
    intro j id hid
    by_cases hj : j = s.owner
    · subst hj
      have hid : id = s.capsule ∨ id ∈ (W.members s.owner).locks := by
        simpa [World.enter, World.setMember, World.setSection] using hid
      rcases hid with rfl | hid
      · exact .inr ⟨rfl, rfl⟩
      · exact .inl hid
    · exact .inl (by simpa [World.enter, World.setMember, World.setSection, hj] using hid)
  constructor
  · intro j k id hj hk
    rcases hlock j id hj with hj | ⟨rfl, rfl⟩
    · rcases hlock k id hk with hk | ⟨rfl, rfl⟩
      · exact h.locks j k id hj hk
      · by_contra hne
        exact hfree j hne hj
    · rcases hlock k _ hk with hk | ⟨rfl, -⟩
      · by_contra hne
        exact hfree k (fun h => hne h.symm) hk
      · rfl
  · exact h.chain
  · exact h.disk
  · exact h.kept
  · intro t s' hs'
    by_cases ht : t = thread s.owner
    · subst ht
      have hs' : s' = s := by
        simpa [World.enter, World.setMember, World.setSection] using hs'.symm
      subst hs'
      exact
        { owner := rfl
          lock := by simp [World.enter, World.setMember, World.setSection]
          pending := hpending
          origin := by simp only [hheld]; exact horigin
          answer := hanswer
          effect := by simpa only [hheld] using heffect }
    · have hs' : W.sections t = some s' := by
        simpa [World.enter, World.setMember, World.setSection, ht] using hs'
      have hok := h.sections t s' hs'
      have hne := h.owner_ne hidle hs'
      exact
        { owner := hok.owner
          lock := by
            simpa [World.enter, World.setMember, World.setSection, hne] using hok.lock
          pending := hok.pending
          origin := by simp only [hheld]; exact hok.origin
          answer := hok.answer
          effect := by simpa only [hheld] using hok.effect }
  · intro j r a ha
    rw [hheld] at ha
    rcases h.held j r a ha with hcurrent | ⟨hnew, hhas, hderived, hhistory | hsection⟩
    · exact .inl hcurrent
    · exact .inr ⟨hnew, hhas, hderived, .inl hhistory⟩
    · refine .inr ⟨hnew, hhas, hderived, .inr ?_⟩
      obtain ⟨s', b, hs', hrest⟩ := hsection
      have ht : thread j ≠ thread s.owner := by
        intro heq
        rw [heq, hidle] at hs'
        cases hs'
      exact ⟨s', b, by simpa [World.enter, World.setMember, World.setSection, ht] using hs', hrest⟩
  · intro j k r r' a b ha hb
    rw [hheld] at ha hb
    exact h.fresh j k r r' a b ha hb

omit [DecidableEq ι] in
/-- A write of a section keeps the directory in step with its history. -/
theorem World.Inv.tick (h : W.Inv thread safe secretSafe) {t : θ} {s : Section ι} {w : Write}
    {rest : List Write} (hs : W.sections t = some s) (hpending : s.pending = w :: rest) :
    (W.tick t s w rest).Inv thread safe secretSafe := by
  have hok := h.sections t s hs
  have hwrites := hok.pending
  rw [hpending] at hwrites
  obtain ⟨hfollows, hdisk, hrest⟩ := hwrites
  have hhistory : (W.tick t s w rest).history s.capsule =
      W.history s.capsule ++ w.committed.toList := by
    unfold World.tick
    cases w.committed <;> simp
  have hother : ∀ id, id ≠ s.capsule → (W.tick t s w rest).history id = W.history id := by
    intro id hid
    unfold World.tick
    cases w.committed <;> simp [hid]
  have hhas : ∀ id, W.store.capsules.has id = true →
      (W.tick t s w rest).store.capsules.has id = true :=
    fun id hid => Store.has_putCapsule.mpr (.inr hid)
  have hself : (W.tick t s w rest).sections t = some { s with pending := rest } := by
    simp [World.tick]
  have hsections : ∀ t', t' ≠ t → (W.tick t s w rest).sections t' = W.sections t' :=
    fun t' ht => by simp [World.tick, ht]
  constructor
  · exact h.locks
  · intro id
    by_cases hid : id = s.capsule
    · subst hid
      rw [hhistory]
      cases hw : w.committed with
      | none => simpa using h.chain s.capsule
      | some x => exact .snoc (h.chain s.capsule) (hfollows x hw)
    · rw [hother id hid]
      exact h.chain id
  · intro id
    by_cases hid : id = s.capsule
    · subst hid
      rw [hhistory]
      have hcapsule : (W.tick t s w rest).store.capsule s.capsule = w.disk :=
        Store.capsule_putCapsule ..
      rw [hcapsule]
      exact hdisk
    · rw [hother id hid]
      have hcapsule : (W.tick t s w rest).store.capsule id = W.store.capsule id :=
        Store.capsule_putCapsule_ne _ _ hid
      rw [hcapsule]
      exact h.disk id
  · intro id hid
    by_cases hsame : id = s.capsule
    · exact Store.has_putCapsule.mpr (.inl hsame)
    · rw [hother id hsame] at hid
      exact hhas id (h.kept id hid)
  · intro t' s' hs'
    by_cases ht : t' = t
    · subst ht
      rw [hself] at hs'
      cases hs'
      refine ⟨hok.owner, hok.lock, ?_, ?_, ?_, ?_⟩
      · simpa only [hhistory] using hrest
      · rcases hok.origin with hne | hnew
        · left
          rw [hhistory]
          simp [hne]
        · exact .inr hnew
      · intro b hb
        rcases hok.answer b hb with hcheck | hcurrent
        · exact .inl hcheck
        · right
          have hafter : after ((W.tick t' s w rest).history s.capsule) rest =
              after (W.history s.capsule) s.pending := by
            rw [hhistory, hpending]
            unfold after
            cases hw : w.committed <;> simp [hw]
          rw [hafter]
          exact hcurrent
      · rintro ⟨v, hv, hcommitted⟩
        exact hok.effect ⟨v, by rw [hpending]; exact List.mem_cons_of_mem w hv, hcommitted⟩
    · rw [hsections t' ht] at hs'
      have hok' := h.sections t' s' hs'
      have hne : s'.capsule ≠ s.capsule := fun heq => ht (h.section_unique hs hs' heq)
      refine ⟨hok'.owner, hok'.lock, ?_, ?_, ?_, hok'.effect⟩
      · rw [hother _ hne]
        exact hok'.pending
      · rw [hother _ hne]
        exact hok'.origin
      · rw [hother _ hne]
        exact hok'.answer
  · intro i r a ha
    have ha : W.held i r = some a := ha
    rcases h.held i r a ha with hcurrent | ⟨hnew, hasOld, hderived, hwhere⟩
    · left
      by_cases hid : a.capsuleId = s.capsule
      · rw [hid, hhistory, ← hid]
        exact hcurrent.append _
      · rw [hother _ hid]
        exact hcurrent
    · refine .inr ⟨hnew, hhas _ hasOld, hderived, ?_⟩
      -- A section that commits the aggregate stays one after its write.
      have hkeep : (∃ s' b, W.sections (thread i) = some s' ∧ s'.owner = i ∧
          s'.capsule = a.capsuleId ∧ s'.purpose = .commit ∧ s'.value = .ok b ∧
          b.records.run.id = a.records.run.id) →
          ∃ s' b, (W.tick t s w rest).sections (thread i) = some s' ∧ s'.owner = i ∧
            s'.capsule = a.capsuleId ∧ s'.purpose = .commit ∧ s'.value = .ok b ∧
            b.records.run.id = a.records.run.id := by
        rintro ⟨s', b, hs', hb⟩
        by_cases ht : thread i = t
        · rw [ht, hs] at hs'
          cases hs'
          exact ⟨{ s with pending := rest }, b, by rw [ht, hself], hb⟩
        · exact ⟨s', b, by rw [hsections _ ht, hs'], hb⟩
      rcases hwhere with hempty | hsection
      · by_cases hid : a.capsuleId = s.capsule
        · cases hw : w.committed with
          | none =>
            left
            rw [hid, hhistory, hw, ← hid, hempty]
            rfl
          | some x =>
            -- The section that commits to an empty history is the aggregate's own.
            right
            obtain ⟨hpurpose, b, r', a', hb, ha', hid', hrun⟩ :=
              hok.effect ⟨w, by rw [hpending]; exact List.mem_cons_self, by simp [hw]⟩
            have hnew' : a'.isNew = true := by
              rcases h.held s.owner r' a' ha' with hcurrent | hnew'
              · obtain ⟨-, base, y, k, hk, -⟩ := hcurrent
                rw [hid', ← hid, hempty] at hk
                simp at hk
              · exact hnew'.1
            obtain ⟨rfl, rfl⟩ := h.fresh _ _ _ _ _ _ ha' ha hnew' hnew (hid'.trans hid.symm)
            rw [ha'] at ha
            cases ha
            exact ⟨{ s with pending := rest }, b, by rw [hok.owner, hself], rfl, hid.symm,
              hpurpose, hb, hrun⟩
        · left
          rw [hother _ hid]
          exact hempty
      · exact .inr (hkeep hsection)
  · exact h.fresh

/-- A section ends: a load and a commit give their session a current aggregate. -/
theorem World.Inv.leave (h : W.Inv thread safe secretSafe) {t : θ} {s : Section ι}
    (hs : W.sections t = some s) (hpending : s.pending = []) :
    ((W.setMember s.owner (World.finish (W.members s.owner) s)).setSection t none).Inv
      thread safe secretSafe := by
  have hok := h.sections t s hs
  let W' := (W.setMember s.owner (World.finish (W.members s.owner) s)).setSection t none
  have hsections : ∀ t' s', W'.sections t' = some s' → t' ≠ t ∧ W.sections t' = some s' := by
    intro t' s' hs'
    by_cases ht : t' = t
    · subst ht
      simp [W', World.setSection] at hs'
    · exact ⟨ht, by simpa [W', World.setSection, World.setMember, ht] using hs'⟩
  have hlock : ∀ j id, id ∈ (W'.members j).locks → id ∈ (W.members j).locks := by
    intro j id hid
    by_cases hj : j = s.owner
    · subst hj
      have hid : id ∈ (World.finish (W.members s.owner) s).locks := by
        simpa [W', World.setSection, World.setMember] using hid
      unfold World.finish at hid
      split at hid
      · dsimp only at hid
        split at hid
        · exact hid
        · exact List.mem_of_mem_erase hid
      · exact hid
      · exact hid
    · simpa [W', World.setSection, World.setMember, hj] using hid
  have hheld : ∀ j r a, W'.held j r = some a →
      W.held j r = some a ∧ (j = s.owner → s.purpose = .commit →
          ∀ b, s.value = .ok b → b.records.run.id ≠ a.records.run.id) ∨
        Current safe (W.history a.capsuleId) a := by
    intro j r a ha
    by_cases hj : j = s.owner
    · subst hj
      have hput : ∀ b, s.value = .ok b → s.purpose ≠ .check →
          ((W.members s.owner).session.capsules.put b).get? r = some a →
          W.held s.owner r = some a ∧ b.records.run.id ≠ a.records.run.id ∨
            Current safe (W.history a.capsuleId) a := by
        intro b hb hpurpose hget
        rw [Table.get?_put] at hget
        split at hget
        · have hba : b = a := Option.some.inj hget
          subst hba
          rcases hok.answer b hb with hcheck | ⟨hcurrent, hid⟩
          · exact absurd hcheck hpurpose
          · right
            rw [hpending] at hcurrent
            rw [hid]
            simpa [after] using hcurrent
        · next hne =>
          left
          refine ⟨hget, fun heq => hne ?_⟩
          rw [heq]
          exact World.run_of_held (W := W) hget
      have ha : (World.finish (W.members s.owner) s).session.capsules.get? r = some a := by
        simpa [W', World.held, World.setSection, World.setMember] using ha
      unfold World.finish at ha
      split at ha
      · next hpurpose hb =>
        rcases hput _ hb (by simp [hpurpose]) ha with ⟨hold, -⟩ | hcurrent
        · exact .inl ⟨hold, fun _ hcommit => by rw [hpurpose] at hcommit; cases hcommit⟩
        · exact .inr hcurrent
      · next hpurpose hb =>
        rcases hput _ hb (by simp [hpurpose]) ha with ⟨hold, hne⟩ | hcurrent
        · refine .inl ⟨hold, fun _ _ b' hb' => ?_⟩
          rw [hb] at hb'
          cases hb'
          exact hne
        · exact .inr hcurrent
      · next hload hcommit =>
        exact .inl ⟨ha, fun _ hpurpose b hb => absurd hb (hcommit b hpurpose)⟩
    · left
      refine ⟨?_, fun heq => absurd heq hj⟩
      simpa [W', World.held, World.setSection, World.setMember, hj] using ha
  constructor
  · intro j k id hj hk
    exact h.locks j k id (hlock j id hj) (hlock k id hk)
  · exact h.chain
  · exact h.disk
  · exact h.kept
  · intro t' s' hs'
    obtain ⟨ht, hs'⟩ := hsections t' s' hs'
    have hok' := h.sections t' s' hs'
    have hne : s'.owner ≠ s.owner := by
      intro heq
      apply ht
      rw [← hok'.owner, ← hok.owner, heq]
    have hsame : ∀ r, W'.held s'.owner r = W.held s'.owner r := by
      intro r
      simp [W', World.held, World.setSection, World.setMember, hne]
    exact
      { owner := hok'.owner
        lock := by simpa [World.setSection, World.setMember, hne] using hok'.lock
        pending := hok'.pending
        origin := by
          rcases hok'.origin with hhistory | ⟨r, a, ha, hrest⟩
          · exact .inl hhistory
          · exact .inr ⟨r, a, (hsame r).trans ha, hrest⟩
        answer := hok'.answer
        effect := by
          intro hcommitted
          obtain ⟨hpurpose, b, r, a, hb, ha, hrest⟩ := hok'.effect hcommitted
          exact ⟨hpurpose, b, r, a, hb, (hsame r).trans ha, hrest⟩ }
  · intro j r a ha
    rcases hheld j r a ha with ⟨hold, hnot⟩ | hcurrent
    · rcases h.held j r a hold with hcurrent | ⟨hnew, hhas, hderived, hhistory | hsection⟩
      · exact .inl hcurrent
      · exact .inr ⟨hnew, hhas, hderived, .inl hhistory⟩
      · obtain ⟨s', b, hs', howner, hid, hpurpose, hb, hrun⟩ := hsection
        by_cases ht : thread j = t
        · rw [ht, hs] at hs'
          cases hs'
          exact absurd hrun (hnot howner.symm hpurpose b hb)
        · refine .inr ⟨hnew, hhas, hderived, .inr ⟨s', b, ?_, howner, hid, hpurpose, hb, hrun⟩⟩
          simpa [World.setSection, World.setMember, ht] using hs'
    · exact .inl hcurrent
  · intro j k r r' a b ha hb hanew hbnew hid
    rcases hheld j r a ha with ⟨ha, -⟩ | hcurrent
    · rcases hheld k r' b hb with ⟨hb, -⟩ | hcurrent
      · exact h.fresh j k r r' a b ha hb hanew hbnew hid
      · rw [hcurrent.1] at hbnew
        cases hbnew
    · rw [hcurrent.1] at hanew
      cases hanew

/-! ## Reservations and ends -/

omit [DecidableEq θ] in
/-- Reserving a directory that does not exist. -/
theorem World.Inv.create (h : W.Inv thread safe secretSafe) {i : ι} {run : Run} {id : String}
    (hidle : W.sections (thread i) = none) (hfresh : W.store.capsules.has id = false)
    (hcursor : run.lastEventSequence = 0) (hfree : W.Free thread i id) :
    World.Inv thread safe secretSafe
      { W.setMember i
          { session := { (W.members i).session with
              capsules := (W.members i).session.capsules.put (newAggregate id run) }
            locks := id :: (W.members i).locks } with
        store := W.store.putCapsule id .empty } := by
  have hempty : W.history id = [] := by
    by_contra hne
    rw [h.kept id hne] at hfresh
    cases hfresh
  have hcapsule : ∀ other, (W.store.putCapsule id .empty).capsule other =
      W.store.capsule other := by
    intro other
    by_cases hother : other = id
    · subst hother
      rw [Store.capsule_putCapsule]
      have hdisk := h.disk other
      rw [hempty] at hdisk
      exact hdisk.symm
    · exact Store.capsule_putCapsule_ne _ _ hother
  have hhas : ∀ other, W.store.capsules.has other = true →
      (W.store.putCapsule id .empty).capsules.has other = true :=
    fun other hother => Store.has_putCapsule.mpr (.inr hother)
  -- What a session holds now is what it held, or the new aggregate.
  have hheld : ∀ j r a,
      (W.setMember i
          { session := { (W.members i).session with
              capsules := (W.members i).session.capsules.put (newAggregate id run) }
            locks := id :: (W.members i).locks }).held j r = some a →
      W.held j r = some a ∨ j = i ∧ r = run.id ∧ a = newAggregate id run := by
    intro j r a ha
    by_cases hj : j = i
    · subst hj
      rw [World.held_setMember_self, Table.get?_put] at ha
      split at ha
      · next hkey => exact .inr ⟨rfl, hkey.symm, (Option.some.inj ha).symm⟩
      · exact .inl ha
    · rw [World.held_setMember_ne _ _ hj] at ha
      exact .inl ha
  have hlock : ∀ j other,
      other ∈ ((W.setMember i
          { session := { (W.members i).session with
              capsules := (W.members i).session.capsules.put (newAggregate id run) }
            locks := id :: (W.members i).locks }).members j).locks →
      other ∈ (W.members j).locks ∨ j = i ∧ other = id := by
    intro j other hother
    by_cases hj : j = i
    · subst hj
      have hother : other = id ∨ other ∈ (W.members j).locks := by
        simpa [World.setMember] using hother
      rcases hother with rfl | hother
      · exact .inr ⟨rfl, rfl⟩
      · exact .inl hother
    · exact .inl (by simpa [World.setMember, hj] using hother)
  have hunused : ∀ j r a, W.held j r = some a → a.isNew = true → a.capsuleId ≠ id := by
    rintro j r a ha hnew rfl
    rcases h.held j r a ha with hcurrent | hheldNew
    · rw [hcurrent.1] at hnew
      cases hnew
    · rw [hheldNew.2.1] at hfresh
      cases hfresh
  constructor
  · intro j k other hj hk
    rcases hlock j other hj with hj' | ⟨rfl, rfl⟩
    · rcases hlock k other hk with hk' | ⟨rfl, rfl⟩
      · exact h.locks j k other hj' hk'
      · by_contra hne
        exact hfree j hne hj'
    · rcases hlock k _ hk with hk' | ⟨rfl, -⟩
      · by_contra hne
        exact hfree k (fun h => hne h.symm) hk'
      · rfl
  · exact h.chain
  · intro other
    have hdisk := h.disk other
    rw [← hcapsule other] at hdisk
    exact hdisk
  · exact fun other hother => hhas other (h.kept other hother)
  · intro t s hs
    have hok := h.sections t s hs
    have hne := h.owner_ne hidle hs
    have hsame : ∀ r, (W.setMember i
          { session := { (W.members i).session with
              capsules := (W.members i).session.capsules.put (newAggregate id run) }
            locks := id :: (W.members i).locks }).held s.owner r = W.held s.owner r :=
      World.held_setMember_ne W _ hne
    exact
      { owner := hok.owner
        lock := by simpa [World.setMember, hne] using hok.lock
        pending := hok.pending
        origin := by
          rcases hok.origin with hhistory | ⟨r, a, ha, hrest⟩
          · exact .inl hhistory
          · exact .inr ⟨r, a, (hsame r).trans ha, hrest⟩
        answer := hok.answer
        effect := by
          intro hcommitted
          obtain ⟨hpurpose, b, r, a, hb, ha, hrest⟩ := hok.effect hcommitted
          exact ⟨hpurpose, b, r, a, hb, (hsame r).trans ha, hrest⟩ }
  · intro j r a ha
    rcases hheld j r a ha with hold | ⟨rfl, rfl, rfl⟩
    · rcases h.held j r a hold with hcurrent | ⟨hnew, hhasOld, hderived, hwhere⟩
      · exact .inl hcurrent
      · exact .inr ⟨hnew, hhas _ hhasOld, hderived, hwhere⟩
    · exact .inr ⟨rfl, Store.has_putCapsule.mpr (.inl rfl), ⟨run, hcursor, .refl _⟩, .inl hempty⟩
  · intro j k r r' a b ha hb hanew hbnew hid
    rcases hheld j r a ha with ha' | ⟨rfl, rfl, rfl⟩
    · rcases hheld k r' b hb with hb' | ⟨rfl, rfl, rfl⟩
      · exact h.fresh j k r r' a b ha' hb' hanew hbnew hid
      · exact absurd hid (hunused j r a ha' hanew)
    · rcases hheld k r' b hb with hb' | ⟨rfl, rfl, rfl⟩
      · exact absurd hid.symm (hunused k r' b hb' hbnew)
      · exact ⟨rfl, rfl⟩

omit [DecidableEq θ] in
/-- A rollback removes at most directories that nothing was committed to. -/
theorem World.Inv.rollback (h : W.Inv thread safe secretSafe) {i : ι} {store : Store}
    (hidle : W.sections (thread i) = none)
    (hstore : World.RolledBack W.store store (W.members i).session) :
    World.Inv thread safe secretSafe { W.setMember i {} with store } := by
  have hcleared := h.setMember (i := i) {} hidle (by simp) (by simp)
  obtain ⟨-, hstore⟩ := hstore
  have hremoved : ∀ name, store.capsules.get? name = W.store.capsules.get? name ∨
      store.capsules.get? name = none ∧ W.store.capsule name = .empty ∧
        W.history name = [] ∧ ∃ r a, W.held i r = some a ∧ a.isNew = true ∧
          a.capsuleId = name := by
    intro name
    rcases hstore name with hsame | ⟨hnone, hempty, r, a, ha, hnew, hid⟩
    · exact .inl hsame
    · obtain ⟨-, hhistory, -⟩ := h.new_of_idle hidle ha hnew
      exact .inr ⟨hnone, hempty, hid ▸ hhistory, r, a, ha, hnew, hid⟩
  constructor
  · exact hcleared.locks
  · exact hcleared.chain
  · intro name
    have hcapsule : store.capsule name = W.store.capsule name := by
      rcases hremoved name with hsame | ⟨hnone, hempty, -⟩
      · simp [Store.capsule, hsame]
      · rw [hempty]
        simp [Store.capsule, hnone]
    have hdisk := hcleared.disk name
    exact hcapsule ▸ hdisk
  · intro name hname
    rcases hremoved name with hsame | ⟨-, -, hhistory, -⟩
    · have hhas := h.kept name hname
      unfold Table.has at hhas ⊢
      rw [hsame]
      exact hhas
    · exact absurd hhistory hname
  · intro t s hs
    have hok := hcleared.sections t s hs
    exact ⟨hok.owner, hok.lock, hok.pending, hok.origin, hok.answer, hok.effect⟩
  · intro j r a ha
    rcases hcleared.held j r a ha with hcurrent | ⟨hnew, hhas, hderived, hwhere⟩
    · exact .inl hcurrent
    · refine .inr ⟨hnew, ?_, hderived, hwhere⟩
      by_cases hj : j = i
      · subst hj
        have ha : (W.setMember j {}).held j r = some a := ha
        rw [World.held_setMember_self] at ha
        cases ha
      · have ha : (W.setMember i {}).held j r = some a := ha
        rw [World.held_setMember_ne W _ hj] at ha
        rcases hremoved a.capsuleId with hsame | ⟨-, -, -, r', a', ha', hnew', hid⟩
        · have hhas : W.store.capsules.has a.capsuleId = true := hhas
          unfold Table.has at hhas ⊢
          rw [hsame]
          exact hhas
        · exact absurd (h.fresh j i r r' a a' ha ha' hnew hnew' hid.symm).1 hj
  · exact hcleared.fresh

omit [DecidableEq ι] in
/-- A stop takes a thread's sessions, their locks and the section under way. -/
theorem World.Inv.stop (h : W.Inv thread safe secretSafe) (t : θ) :
    World.Inv thread safe secretSafe
      { W with
        members := fun i => if thread i = t then {} else W.members i
        sections := Function.update W.sections t none
        projectLock := W.projectLock.filter fun j => thread j ≠ t } := by
  let W' : World ι θ :=
    { W with
      members := fun i => if thread i = t then {} else W.members i
      sections := Function.update W.sections t none
      projectLock := W.projectLock.filter fun j => thread j ≠ t }
  have hheld : ∀ j r a, W'.held j r = some a → thread j ≠ t ∧ W.held j r = some a := by
    intro j r a ha
    by_cases hj : thread j = t
    · simp [W', World.held, hj] at ha
    · exact ⟨hj, by simpa [W', World.held, hj] using ha⟩
  have hlock : ∀ j id, id ∈ (W'.members j).locks → id ∈ (W.members j).locks := by
    intro j id hid
    by_cases hj : thread j = t
    · simp [W', hj] at hid
    · simpa [W', hj] using hid
  have hsections : ∀ t' s, W'.sections t' = some s → t' ≠ t ∧ W.sections t' = some s := by
    intro t' s hs
    by_cases ht : t' = t
    · subst ht
      simp [W'] at hs
    · exact ⟨ht, by simpa [W', ht] using hs⟩
  have hkeep : ∀ j, thread j ≠ t → W'.members j = W.members j := by
    intro j hj
    simp [W', hj]
  constructor
  · intro j k id hj hk
    exact h.locks j k id (hlock j id hj) (hlock k id hk)
  · exact h.chain
  · exact h.disk
  · exact h.kept
  · intro t' s hs
    obtain ⟨ht, hs⟩ := hsections t' s hs
    have hok := h.sections t' s hs
    have howner : thread s.owner ≠ t := by
      rw [hok.owner]
      exact ht
    have hsame : ∀ r, W'.held s.owner r = W.held s.owner r := by
      intro r
      unfold World.held
      rw [hkeep _ howner]
    have hmember := hkeep _ howner
    exact
      { owner := hok.owner
        lock := by
          show s.capsule ∈ (W'.members s.owner).locks
          rw [hmember]
          exact hok.lock
        pending := hok.pending
        origin := by
          rcases hok.origin with hhistory | ⟨r, a, ha, hrest⟩
          · exact .inl hhistory
          · exact .inr ⟨r, a, (hsame r).trans ha, hrest⟩
        answer := hok.answer
        effect := by
          intro hcommitted
          obtain ⟨hpurpose, b, r, a, hb, ha, hrest⟩ := hok.effect hcommitted
          exact ⟨hpurpose, b, r, a, hb, (hsame r).trans ha, hrest⟩ }
  · intro j r a ha
    obtain ⟨hj, ha⟩ := hheld j r a ha
    rcases h.held j r a ha with hcurrent | ⟨hnew, hhas, hderived, hhistory | hsection⟩
    · exact .inl hcurrent
    · exact .inr ⟨hnew, hhas, hderived, .inl hhistory⟩
    · obtain ⟨s, b, hs, hrest⟩ := hsection
      exact .inr ⟨hnew, hhas, hderived, .inr ⟨s, b, by simpa [hj] using hs, hrest⟩⟩
  · intro j k r r' a b ha hb
    exact h.fresh j k r r' a b (hheld j r a ha).2 (hheld k r' b hb).2

/-! ## Every step -/

omit [DecidableEq ι] [DecidableEq θ] in
/-- A capsule whose metadata names a run has a history. -/
theorem World.Inv.history_of_found (h : W.Inv thread safe secretSafe) {runId : UUID}
    {id : String} (hfound : W.store.capsuleId runId = .ok (some id)) :
    ∃ x, (W.history id).getLast? = some x := by
  cases hlast : (W.history id).getLast? with
  | some x => exact ⟨x, rfl⟩
  | none =>
    have hdisk := h.disk id
    unfold OnDisk at hdisk
    rw [hlast] at hdisk
    have hnames := Store.names_of_capsuleId_eq_some hfound
    rw [hdisk, Store.names_of_absent rfl] at hnames
    cases hnames

omit [DecidableEq ι] [DecidableEq θ] in
/-- A held aggregate that is not new is current, in a history that is not empty. -/
theorem World.Inv.current_of_held (h : W.Inv thread safe secretSafe) {i : ι} {runId : UUID}
    {a : Aggregate} (ha : W.held i runId = some a) (hold : a.isNew = false) :
    Current safe (W.history a.capsuleId) a ∧
      ∃ x, (W.history a.capsuleId).getLast? = some x := by
  rcases h.held i runId a ha with hcurrent | hnew
  · refine ⟨hcurrent, ?_⟩
    obtain ⟨-, base, y, k, hk, -⟩ := hcurrent
    cases hlast : (W.history a.capsuleId).getLast? with
    | some x => exact ⟨x, rfl⟩
    | none =>
      rw [List.getLast?_eq_none_iff.mp hlast] at hk
      simp at hk
  · rw [hnew.1] at hold
    cases hold

omit [DecidableEq ι] [DecidableEq θ] in
/-- What the check of a commit finds, of an idle session. -/
theorem World.Inv.checked (h : W.Inv thread safe secretSafe) {i : ι} {runId : UUID}
    {a : Aggregate} (hidle : W.sections (thread i) = none) (ha : W.held i runId = some a) :
    Checked safe secretSafe a.capsuleId (W.history a.capsuleId) a
      (W.store.capsule a.capsuleId) := by
  cases hnew : a.isNew with
  | false =>
    obtain ⟨hcurrent, x, hx⟩ := h.current_of_held ha hnew
    exact checked_current (h.chain _) hx (h.disk _) hcurrent
  | true =>
    obtain ⟨-, hhistory, run, hcursor, hderived⟩ := h.new_of_idle hidle ha hnew
    have hdisk := h.disk a.capsuleId
    rw [hhistory] at hdisk ⊢
    have hdisk : W.store.capsule a.capsuleId = .empty := hdisk
    rw [hdisk]
    exact checked_new hcursor hderived

/-- Every step keeps the invariant. -/
theorem World.Inv.step (h : W.Inv thread safe secretSafe)
    (hstep : World.Step thread safe secretSafe W W') : W'.Inv thread safe secretSafe := by
  cases hstep with
  | load i runId forUpdate hidle hcached hfound hfree =>
    obtain ⟨x, hx⟩ := h.history_of_found hfound
    obtain ⟨⟨hpending, hafter, hnone⟩, hanswer⟩ :=
      @load_section _ _ _ _ _ _ runId (h.chain _) hx (h.disk _)
    refine h.enter _ hidle.1 hfree hpending ?_ ?_ ?_
    · left
      intro hempty
      rw [hempty] at hx
      cases hx
    · intro b hb
      right
      rw [hafter]
      exact hanswer b hb
    · rintro ⟨w, hw, hcommitted⟩
      exact absurd (hnone w hw) hcommitted
  | check i hidle hcached hold hfree =>
    obtain ⟨hcurrent, x, hx⟩ := h.current_of_held hcached hold
    obtain ⟨hpending, hafter, hnone⟩ := @check_section _ _ _ _ _ _ _ hx (h.disk _)
    refine h.enter _ hidle.1 hfree hpending ?_ (fun b hb => .inl rfl) ?_
    · left
      intro hempty
      rw [hempty] at hx
      cases hx
    · rintro ⟨w, hw, hcommitted⟩
      exact absurd (hnone w hw) hcommitted
  | @commit i runId a hidle hcached hdirty hfree =>
    have hchecked := h.checked hidle.1 hcached
    obtain ⟨hpending, hvalue⟩ := commit_section hchecked hdirty
    refine h.enter _ hidle.1 hfree hpending ?_ ?_ ?_
    · cases hnew : a.isNew with
      | true => exact .inr ⟨runId, a, hcached, hnew, rfl⟩
      | false =>
        obtain ⟨-, x, hx⟩ := h.current_of_held hcached hnew
        left
        intro hempty
        rw [hempty] at hx
        cases hx
    · intro b hb
      right
      rcases hvalue with ⟨hok, hafter⟩ | ⟨⟨e, herror⟩, -⟩
      · have hba : b = a.committed := Except.ok.inj (hb.symm.trans hok)
        subst hba
        have hchain := hpending.chain (h.chain _)
        refine ⟨?_, rfl⟩
        show Current safe (after (W.history a.capsuleId) (commitWrites secretSafe a _)) _
        rw [hafter] at hchain ⊢
        exact hchain.current_last (by simp) (.refl _)
      · rw [herror] at hb
        cases hb
    · rintro ⟨w, hw, hcommitted⟩
      rcases hvalue with ⟨hok, -⟩ | ⟨-, hnone⟩
      · exact ⟨rfl, _, runId, a, hok, hcached, rfl, rfl⟩
      · exact absurd (hnone w hw) hcommitted
  | tick t hsection hpending => exact h.tick hsection hpending
  | leave t hsection hpending => exact h.leave hsection hpending
  | create i run id hidle hcached hnone hfresh hcursor hfree =>
    exact h.create hidle.1 hfresh hcursor hfree
  | @stage i runId a records hidle hcached hcall =>
    have hrun : records.run.id = a.records.run.id := (Staging.extends hcall).id
    refine h.setMember _ hidle.1 (fun id hid => hid) fun r b hb => ?_
    dsimp only at hb
    rw [Table.get?_put] at hb
    split at hb
    · next hkey =>
      cases hb
      have hr : runId = r := by
        rw [← hkey, hrun]
        exact (World.run_of_held (W := W) (i := i) hcached).symm
      subst hr
      by_cases hnew : a.isNew = true
      · exact .inr ⟨hnew, a, hcached, hnew, rfl, fun base hbase => hbase.stage hcall⟩
      · have hold : a.isNew = false := by simpa using hnew
        exact .inl ((h.current_of_held hcached hold).1.stage hcall)
    · cases hnew : b.isNew with
      | false => exact .inl (h.current_of_held (W := W) (i := i) hb hnew).1
      | true => exact .inr ⟨rfl, b, hb, hnew, rfl, fun base hbase => hbase⟩
  | release i id hidle =>
    refine h.setMember _ hidle.1 (fun id hid => List.mem_of_mem_erase hid) fun r b hb => ?_
    cases hnew : b.isNew with
    | false => exact .inl (h.current_of_held (W := W) (i := i) hb hnew).1
    | true => exact .inr ⟨rfl, b, hb, hnew, rfl, fun base hbase => hbase⟩
  | forget i hidle hcached hclean =>
    refine h.setMember _ hidle.1 (fun id hid => hid) fun r b hb => ?_
    obtain ⟨hb, -⟩ := Table.get?_filter.mp hb
    cases hnew : b.isNew with
    | false => exact .inl (h.current_of_held (W := W) (i := i) hb hnew).1
    | true => exact .inr ⟨rfl, b, hb, hnew, rfl, fun base hbase => hbase⟩
  | rollback i hidle hstore => exact h.rollback hidle.1 hstore
  | stop t => exact h.stop t
  | other index project => exact h.congr rfl (fun _ => rfl) (fun _ => rfl) rfl rfl
  | loadProject i hidle hnone hload =>
    refine h.congr rfl (fun j => ?_) (fun j => ?_) rfl rfl <;>
      by_cases hj : j = i <;> simp [World.setSession, World.setMember, hj]
  | saveProject i name value hidle hloaded =>
    refine h.congr rfl (fun j => ?_) (fun j => ?_) rfl rfl <;>
      by_cases hj : j = i <;> simp [World.setSession, World.setMember, hj]
  | checkProject i hidle hfree hdirty hdisk =>
    exact h.congr rfl (fun _ => rfl) (fun _ => rfl) rfl rfl
  | writeProject i hlock hloaded =>
    refine h.congr rfl (fun j => ?_) (fun j => ?_) rfl rfl <;>
      by_cases hj : j = i <;> simp [World.setSession, World.setMember, hj]

end Steps

end Orqalis
