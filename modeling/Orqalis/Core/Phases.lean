import Orqalis.Core.Reach

/-!
# The log of the phases

A run has one phase open at most, the phase it shows. Only a transition opens and closes
phases: it ends the open one where the run shows another phase or ends, and begins the next
at the time of its own event. The times of the log do not go back, so a phase ends before the
next begins (`PhaseBook`).

`phase_log` is what the timing analytics read off the stored phases.
-/

namespace Orqalis

open Lib Lib.Transaction

/-! ## Books of phases -/

/-- The phases of one kind, in the order they are stored in. -/
def phasesOf (l : List PhaseExecution) (kind : UIPhase) : List PhaseExecution :=
  l.filter fun p => p.phase = kind

/-- Phases in the order they began, each ended before the next began, and the phases of one
kind numbered from one on. -/
structure PhaseBook (l : List PhaseExecution) : Prop where
  ordered : l.Pairwise fun p q => p.startedAt ≤ q.startedAt
  successive : l.Pairwise fun p q => ∃ c, p.completedAt = some c ∧ c ≤ q.startedAt
  numbered : ∀ kind, (phasesOf l kind).map PhaseExecution.iteration =
    List.range' 1 (phasesOf l kind).length

/-- An entry of a phase that stays itself: its status and its end may change. -/
structure SamePhase (p q : PhaseExecution) : Prop where
  id : q.id = p.id
  phase : q.phase = p.phase
  iteration : q.iteration = p.iteration
  startedAt : q.startedAt = p.startedAt

section Books

variable {l : List PhaseExecution} {p q n : PhaseExecution}

theorem PhaseBook.nil : PhaseBook [] := ⟨.nil, .nil, fun _ => rfl⟩

/-- The last entry may change its status and end. -/
theorem PhaseBook.change_last (h : PhaseBook (l ++ [p])) (hq : SamePhase p q) :
    PhaseBook (l ++ [q]) := by
  obtain ⟨hordered, hsuccessive, hnumbered⟩ := h
  rw [List.pairwise_append] at hordered hsuccessive
  refine ⟨List.pairwise_append.mpr ⟨hordered.1, List.pairwise_singleton _ _, ?_⟩,
    List.pairwise_append.mpr ⟨hsuccessive.1, List.pairwise_singleton _ _, ?_⟩, fun kind => ?_⟩
  · intro e he f hf
    rw [List.mem_singleton.mp hf, hq.startedAt]
    exact hordered.2.2 e he p List.mem_cons_self
  · intro e he f hf
    rw [List.mem_singleton.mp hf, hq.startedAt]
    exact hsuccessive.2.2 e he p List.mem_cons_self
  · have hmap : (phasesOf (l ++ [q]) kind).map PhaseExecution.iteration =
        (phasesOf (l ++ [p]) kind).map PhaseExecution.iteration := by
      by_cases hkind : p.phase = kind <;>
        simp [phasesOf, List.filter_append, hkind, hq.phase, hq.iteration]
    have hlength := congrArg List.length hmap
    simp only [List.length_map] at hlength
    rw [hmap, hlength]
    exact hnumbered kind

/-- A new entry begins after all have ended. -/
theorem PhaseBook.begin (h : PhaseBook l) (hn : n.iteration = 1 + (phasesOf l n.phase).length)
    (hstarted : ∀ p ∈ l, p.startedAt ≤ n.startedAt)
    (hended : ∀ p ∈ l, ∃ c, p.completedAt = some c ∧ c ≤ n.startedAt) :
    PhaseBook (l ++ [n]) := by
  obtain ⟨hordered, hsuccessive, hnumbered⟩ := h
  refine ⟨List.pairwise_append.mpr ⟨hordered, List.pairwise_singleton _ _, ?_⟩,
    List.pairwise_append.mpr ⟨hsuccessive, List.pairwise_singleton _ _, ?_⟩, fun kind => ?_⟩
  · exact fun e he f hf => List.mem_singleton.mp hf ▸ hstarted e he
  · exact fun e he f hf => List.mem_singleton.mp hf ▸ hended e he
  · by_cases hkind : n.phase = kind
    · have hsplit : phasesOf (l ++ [n]) kind = phasesOf l kind ++ [n] := by
        simp [phasesOf, List.filter_append, hkind]
      rw [hsplit, List.map_append, hnumbered kind, List.length_append, List.length_singleton,
        List.range'_concat, List.map_singleton, hn, hkind, Nat.one_mul]
    · have hsplit : phasesOf (l ++ [n]) kind = phasesOf l kind := by
        simp [phasesOf, List.filter_append, hkind]
      rw [hsplit]
      exact hnumbered kind

/-- An entry that has not ended is the last one. -/
theorem PhaseBook.last (h : PhaseBook l) (hp : p ∈ l) (hopen : p.completedAt = none) :
    ∃ before, l = before ++ [p] ∧ ∀ q ∈ before, q.completedAt.isSome := by
  obtain ⟨before, rest, rfl⟩ := List.append_of_mem hp
  obtain ⟨-, hrest, hcross⟩ := List.pairwise_append.mp h.successive
  cases rest with
  | nil =>
    refine ⟨before, rfl, fun q hq => ?_⟩
    obtain ⟨c, hc, -⟩ := hcross q hq p List.mem_cons_self
    simp [hc]
  | cons q rest =>
    obtain ⟨c, hc, -⟩ := (List.pairwise_cons.mp hrest).1 q List.mem_cons_self
    rw [hopen] at hc
    cases hc

/-- Of two entries the earlier one has ended when the later one starts. -/
theorem PhaseBook.disjoint (h : PhaseBook l) (hp : p ∈ l) (hq : q ∈ l) (hne : p ≠ q) :
    (∃ c, p.completedAt = some c ∧ c ≤ q.startedAt) ∨
      ∃ c, q.completedAt = some c ∧ c ≤ p.startedAt := by
  obtain ⟨before, rest, rfl⟩ := List.append_of_mem hp
  obtain ⟨-, hrest, hcross⟩ := List.pairwise_append.mp h.successive
  rcases List.mem_append.mp hq with hbefore | hafter
  · exact .inr (hcross q hbefore p List.mem_cons_self)
  · rcases List.mem_cons.mp hafter with heq | hafter
    · exact absurd heq.symm hne
    · exact .inl ((List.pairwise_cons.mp hrest).1 q hafter)

end Books

/-! ## The phases of a run -/

/-- What holds of the stored phases of a run, in the middle of a transition too. -/
structure PhasesKept (r : Records) : Prop where
  chronological : r.Chronological
  book : PhaseBook r.phases.entries
  started : ∀ p ∈ r.phases, ∃ e ∈ r.events, p.startedAt ≤ e.occurredAt
  ended : ∀ p ∈ r.phases, ∀ c, p.completedAt = some c → ∃ e ∈ r.events, c ≤ e.occurredAt

/-- The open phase is the one the run shows, and a run that has ended has none. -/
def OpenShown (r : Records) : Prop :=
  ∀ p ∈ r.phases, p.completedAt = none → p.phase = r.run.uiPhase ∧ r.run.state.terminal = false

section Keeping

variable {r r' : Records} {S : List Part}

theorem PhasesKept.of_frame (h : PhasesKept r) (hframe : Frame S r r')
    (hphases : Part.phases ∉ S) : PhasesKept r' := by
  have hsame := hframe.phases hphases
  have hgrown : ∀ e ∈ r.events, e ∈ r'.events := fun e he => hframe.grown.subset he
  refine ⟨hframe.timed h.chronological, by rw [hsame]; exact h.book, fun p hp => ?_,
    fun p hp c hc => ?_⟩
  · obtain ⟨e, he, hle⟩ := h.started p (hsame ▸ hp)
    exact ⟨e, hgrown e he, hle⟩
  · obtain ⟨e, he, hle⟩ := h.ended p (hsame ▸ hp) c hc
    exact ⟨e, hgrown e he, hle⟩

theorem OpenShown.of_same (h : OpenShown r) (hphases : r'.phases = r.phases)
    (hphase : r'.run.uiPhase = r.run.uiPhase) (hstate : r'.run.state = r.run.state) :
    OpenShown r' := by
  intro p hp hopen
  rw [hphase, hstate]
  exact h p (hphases ▸ hp) hopen

/-- The open phase that is found is the last entry; where none is found all have ended. -/
theorem openPhase_cases (h : PhaseBook r.phases.entries) :
    (∃ p before, openPhase r.phaseList = some p ∧ r.phases.entries = before ++ [p] ∧
      p.completedAt = none ∧ ∀ q ∈ before, q.completedAt.isSome) ∨
    openPhase r.phaseList = none ∧ ∀ p ∈ r.phases, p.completedAt.isSome := by
  cases hopen : openPhase r.phaseList with
  | some p =>
    have hp : p ∈ r.phaseList := List.mem_reverse.mp (List.mem_of_find?_eq_some hopen)
    have hnone : p.completedAt = none := by simpa using List.find?_some hopen
    obtain ⟨before, hsplit, hended⟩ := h.last (mem_sortEntities.mp hp) hnone
    exact .inl ⟨p, before, rfl, hsplit, hnone, hended⟩
  | none =>
    refine .inr ⟨rfl, fun p hp => ?_⟩
    have hmem : p ∈ r.phaseList.reverse := List.mem_reverse.mpr (mem_sortEntities.mpr hp)
    have hne := List.find?_eq_none.mp hopen p hmem
    simpa [Option.isSome_iff_ne_none] using hne

/-- An entry of the last phase takes the place of the last. -/
theorem entries_put_last {before : List PhaseExecution} {p q : PhaseExecution}
    (h : r.phases.entries = before ++ [p]) (hid : q.id = p.id) :
    (r.phases.put q).entries = before ++ [q] := by
  have hnodup := r.phases.nodup
  rw [h, List.map_append, List.nodup_append] at hnodup
  rw [Table.entries_put_held (by rw [h, hid]; simp), h, List.map_append]
  have hsame : before.map (fun y => if y.id = q.id then q else y) = before := by
    refine (List.map_congr_left fun y hy => if_neg ?_).trans (List.map_id _)
    intro heq
    exact hnodup.2.2 y.id (List.mem_map_of_mem hy) p.id (by simp) (heq.trans hid)
  rw [hsame]
  simp [hid]

theorem savePhase_ok {p : PhaseExecution} (h : r.savePhase p = .ok r') :
    r' = { r with phases := r.phases.put p } := by
  unfold Records.savePhase at h
  split_ifs at h
  exact (Except.ok.inj h).symm

/-- Every event is as early as a time. -/
def Records.By (r : Records) (t : Time) : Prop := ∀ e ∈ r.events, e.occurredAt ≤ t

/-- An event of a time is no later than it, and leaves the phases alone. -/
theorem emit_by {P : Primitives} {run : Run} {d : EventDraft} {e : Event}
    (h : emit P run d r = .ok (e, r')) :
    e ∈ r'.events ∧ ∀ t, d.occurredAt ≤ t → r.By t → r'.By t := by
  have happend := emit_ok.mp h
  unfold Records.append at happend
  split at happend
  · next existing hexisting =>
    split_ifs at happend
    cases happend
    exact ⟨List.mem_of_find?_eq_some hexisting, fun _ _ h => h⟩
  · split_ifs at happend
    cases happend
    refine ⟨List.mem_append_right _ List.mem_cons_self, fun t hd hby e he => ?_⟩
    rcases List.mem_append.mp he with he | he
    · exact hby e he
    · rw [List.mem_singleton.mp he]
      exact eventOf_le hd hby

end Keeping

/-! ## Opening and closing -/

section Updating

variable {r r' : Records} {P : Primitives} {run : Run} {key : String} {now : Time}
  {status : TaskStatus} {x : Unit}

/-- Storing the last entry again, with an end that the log tells of. -/
theorem PhasesKept.put_last {before : List PhaseExecution} {p q : PhaseExecution}
    (h : PhasesKept r) (hsplit : r.phases.entries = before ++ [p]) (hq : SamePhase p q)
    (hended : ∀ c, q.completedAt = some c → ∃ e ∈ r.events, c ≤ e.occurredAt) :
    PhasesKept { r with phases := r.phases.put q } := by
  have hentries := entries_put_last hsplit hq.id
  have hold : ∀ w ∈ r.phases.put q, w ∈ r.phases ∨ w = q := by
    intro w hw
    rcases Table.mem_put.mp hw with rfl | ⟨hw, -⟩
    · exact .inr rfl
    · exact .inl hw
  refine ⟨h.chronological, ?_, fun w hw => ?_, fun w hw c hc => ?_⟩
  · rw [hentries]
    exact PhaseBook.change_last (hsplit ▸ h.book) hq
  · rcases hold w hw with hw | rfl
    · exact h.started w hw
    · rw [hq.startedAt]
      exact h.started p (Table.mem_def.mpr (hsplit ▸ by simp))
  · rcases hold w hw with hw | rfl
    · exact h.ended w hw c hc
    · exact hended c hc

/-- Ending the open phase leaves all ended, and none later than the log. -/
theorem endPhase_kept {before : List PhaseExecution} {p : PhaseExecution} (h : PhasesKept r)
    (hsplit : r.phases.entries = before ++ [p])
    (hr : endPhase P run key now status p r = .ok (x, r')) :
    PhasesKept r' ∧ (∃ q, SamePhase p q ∧ q.completedAt.isSome ∧
      r'.phases.entries = before ++ [q]) ∧ (r.By now → r'.By now) ∧
      ∀ e ∈ r.events, e ∈ r'.events := by
  obtain ⟨event, s, hs, hr⟩ := bind_ok.mp hr
  rw [read_bind_ok] at hr
  have hframe : Frame [] r s := Within.frame (Within.emit (quiet_of_apart (by rfl))) hs
  have hkept := h.of_frame hframe (by decide)
  obtain ⟨hevent, hby⟩ := emit_by hs
  have hsplit' : s.phases.entries = before ++ [p] := by
    rw [hframe.phases (by decide), hsplit]
  obtain ⟨q, hq, hend, rfl⟩ : ∃ q : PhaseExecution, SamePhase p q ∧
      q.completedAt = some event.occurredAt ∧ r' = { s with phases := s.phases.put q } := by
    refine ⟨_, ?_, ?_, savePhase_ok (stage_ok.mp hr)⟩
    · exact ⟨rfl, rfl, rfl, rfl⟩
    · rfl
  refine ⟨hkept.put_last hsplit' hq fun c hc => ⟨event, hevent, ?_⟩,
    ⟨q, hq, by simp [hend], entries_put_last hsplit' hq.id⟩, hby now le_rfl,
    fun e he => hframe.grown.subset he⟩
  rw [hend] at hc
  exact (Option.some.inj hc).ge

/-- Beginning a phase where all have ended, at the time of the log. -/
theorem startPhase_kept {phaseId : UUID} {phases : List PhaseExecution} (h : PhasesKept r)
    (hnew : ∀ p ∈ r.phases, p.id ≠ phaseId)
    (hcount : phases.countP (fun p => p.phase = run.uiPhase) =
      (phasesOf r.phases.entries run.uiPhase).length)
    (hended : ∀ p ∈ r.phases, p.completedAt.isSome) (hby : r.By now)
    (hnow : ∃ e ∈ r.events, now ≤ e.occurredAt)
    (hr : startPhase P run key now status phaseId phases r = .ok (x, r')) :
    PhasesKept r' ∧ ∀ p ∈ r'.phases, p.completedAt = none → p.phase = run.uiPhase := by
  obtain ⟨s, hs, hr⟩ := stage_bind_ok.mp hr
  have hput := savePhase_ok hs
  have hframe : Frame [] s r' := Within.frame (Within.note (quiet_of_apart (by rfl))) hr
  obtain ⟨n, hn⟩ : ∃ n : PhaseExecution, n =
      { id := phaseId, createdAt := now, runId := run.id, phase := run.uiPhase, startedAt := now
        iteration := 1 + phases.countP fun p => p.phase = run.uiPhase, status } := ⟨_, rfl⟩
  rw [← hn] at hput
  have hentries : s.phases.entries = r.phases.entries ++ [n] := by
    rw [hput]
    exact Table.entries_put_new fun y hy => by
      rw [hn]
      exact hnew y hy
  have hmem : ∀ p ∈ s.phases, p ∈ r.phases ∨ p = n := by
    intro p hp
    have hp' : p ∈ r.phases.entries ++ [n] := hentries ▸ hp
    exact (List.mem_append.mp hp').imp_right List.mem_singleton.mp
  have hevents : s.events = r.events := by rw [hput]
  have hstarted : n.startedAt = now := by rw [hn]
  have hopen : n.completedAt = none := by rw [hn]
  have hkept : PhasesKept s := by
    refine ⟨by rw [Records.Chronological, hevents]; exact h.chronological, ?_, fun p hp => ?_,
      fun p hp c hc => ?_⟩
    · rw [hentries]
      refine h.book.begin (by rw [hn, hcount]) (fun p hp => ?_) fun p hp => ?_
      · obtain ⟨e, he, hle⟩ := h.started p hp
        rw [hstarted]
        exact hle.trans (hby e he)
      · obtain ⟨c, hc⟩ := Option.isSome_iff_exists.mp (hended p hp)
        obtain ⟨e, he, hle⟩ := h.ended p hp c hc
        exact ⟨c, hc, by rw [hstarted]; exact hle.trans (hby e he)⟩
    · rw [hevents]
      rcases hmem p hp with hp | rfl
      · exact h.started p hp
      · rw [hstarted]
        exact hnow
    · rw [hevents]
      rcases hmem p hp with hp | rfl
      · exact h.ended p hp c hc
      · rw [hopen] at hc
        cases hc
  refine ⟨hkept.of_frame hframe (by decide), fun p hp hnone => ?_⟩
  rw [hframe.phases (by decide)] at hp
  rcases hmem p hp with hp | rfl
  · have hsome := hended p hp
    rw [hnone] at hsome
    cases hsome
  · rw [hn]

/-- The phases of one kind are counted alike in the order they are listed in. -/
theorem countP_phaseList (r : Records) (kind : UIPhase) :
    r.phaseList.countP (fun p => p.phase = kind) = (phasesOf r.phases.entries kind).length := by
  rw [phasesOf, ← List.countP_eq_length_filter]
  exact (List.perm_insertionSort _ _).countP_eq _

/-- Where a run goes on, what is open afterwards is the phase it shows. -/
theorem updatePhase_going {phaseId : UUID} (h : PhasesKept r)
    (hnew : r.phases.has phaseId = false) (hby : r.By now)
    (hnow : ∃ e ∈ r.events, now ≤ e.occurredAt)
    (hr : updatePhase P run key now status false phaseId r = .ok (x, r')) :
    PhasesKept r' ∧ ∀ p ∈ r'.phases, p.completedAt = none → p.phase = run.uiPhase := by
  unfold updatePhase at hr
  rw [read_bind_ok] at hr
  have hunused : ∀ p ∈ r.phases, p.id ≠ phaseId :=
    Table.get?_eq_none.mp (by simpa [Table.has] using hnew)
  rcases openPhase_cases h.book with ⟨p, before, hopen, hsplit, hnone, hended⟩ | ⟨hopen, hended⟩
  · simp only [hopen, Bool.false_eq_true, or_false, if_false] at hr
    split_ifs at hr with hphase hstatus
    · obtain ⟨y, s, hs, hr⟩ := bind_ok.mp hr
      obtain ⟨hkept, ⟨q, hq, hqended, hentries⟩, hby', hgrown⟩ := endPhase_kept h hsplit hs
      have hmem : ∀ w ∈ s.phases, w ∈ before ∨ w = q := by
        intro w hw
        have hw' : w ∈ before ++ [q] := hentries ▸ hw
        exact (List.mem_append.mp hw').imp_right List.mem_singleton.mp
      refine startPhase_kept hkept (fun w hw => ?_) ?_ (fun w hw => ?_) (hby' hby) ?_ hr
      · rcases hmem w hw with hw | rfl
        · exact hunused w (Table.mem_def.mpr (hsplit ▸ List.mem_append_left _ hw))
        · rw [hq.id]
          exact hunused p (Table.mem_def.mpr (hsplit ▸ by simp))
      · rw [countP_phaseList, hsplit, hentries]
        by_cases hkind : p.phase = run.uiPhase <;>
          simp [phasesOf, List.filter_append, hkind, hq.phase]
      · rcases hmem w hw with hw | rfl
        · exact hended w hw
        · exact hqended
      · obtain ⟨e, he, hle⟩ := hnow
        exact ⟨e, hgrown e he, hle⟩
    · obtain ⟨s, hs, hr⟩ := stage_bind_ok.mp hr
      have hput := savePhase_ok hs
      have hframe : Frame [] s r' := Within.frame (Within.note (quiet_of_apart (by rfl))) hr
      have hkept : PhasesKept s := by
        rw [hput]
        refine h.put_last hsplit ⟨rfl, rfl, rfl, rfl⟩ fun c hc => ?_
        rw [hnone] at hc
        cases hc
      refine ⟨hkept.of_frame hframe (by decide), fun w hw hopen' => ?_⟩
      rw [hframe.phases (by decide), hput] at hw
      rcases Table.mem_put.mp hw with rfl | ⟨hw, hne⟩
      · exact not_not.mp hphase
      · have hw' : w ∈ before ++ [p] := hsplit ▸ hw
        rcases List.mem_append.mp hw' with hw | hw
        · have hsome := hended w hw
          rw [hopen'] at hsome
          cases hsome
        · exact absurd (congrArg PhaseExecution.id (List.mem_singleton.mp hw)) hne
    · obtain ⟨-, rfl⟩ := pure_ok.mp hr
      refine ⟨h, fun w hw hopen' => ?_⟩
      have hw' : w ∈ before ++ [p] := hsplit ▸ hw
      rcases List.mem_append.mp hw' with hw | hw
      · have hsome := hended w hw
        rw [hopen'] at hsome
        cases hsome
      · rw [List.mem_singleton.mp hw]
        exact not_not.mp hphase
  · simp only [hopen, Bool.false_eq_true, if_false] at hr
    exact startPhase_kept h hunused (countP_phaseList r _) hended hby hnow hr

/-- Where a run ends, no phase is open afterwards. -/
theorem updatePhase_ending {phaseId : UUID} (h : PhasesKept r)
    (hr : updatePhase P run key now status true phaseId r = .ok (x, r')) :
    PhasesKept r' ∧ ∀ p ∈ r'.phases, p.completedAt.isSome := by
  unfold updatePhase at hr
  rw [read_bind_ok] at hr
  rcases openPhase_cases h.book with ⟨p, before, hopen, hsplit, hnone, hended⟩ | ⟨hopen, hended⟩
  · simp only [hopen, or_true, if_true] at hr
    obtain ⟨y, s, hs, hr⟩ := bind_ok.mp hr
    obtain ⟨-, rfl⟩ := pure_ok.mp hr
    obtain ⟨hkept, ⟨q, hq, hqended, hentries⟩, -, -⟩ := endPhase_kept h hsplit hs
    refine ⟨hkept, fun w hw => ?_⟩
    have hw' : w ∈ before ++ [q] := hentries ▸ hw
    rcases List.mem_append.mp hw' with hw | hw
    · exact hended w hw
    · rw [List.mem_singleton.mp hw]
      exact hqended
  · simp only [hopen, if_true] at hr
    obtain ⟨-, rfl⟩ := pure_ok.mp hr
    exact ⟨h, hended⟩

end Updating

/-! ## Transitions -/

section Advancing

variable {r r' s : Records} {P : Primitives} {project : Project} {key : String} {now : Time}

/-- The first transition of a run adds the event of the orchestrator's actor. -/
theorem orchestratorActor_events {run : Run} {a : ActorSession}
    (h : orchestratorActor P run now r = .ok (a, r')) :
    ∀ e ∈ r'.events, e ∈ r.events ∨ e.idempotencyKey = "orchestrator:created" := by
  unfold orchestratorActor at h
  obtain ⟨o, q, hread, h⟩ := bind_ok.mp h
  obtain ⟨rfl, rfl⟩ := read_ok.mp hread
  cases hget : q.actors.get? (orchestratorId run.id) with
  | some b =>
    rw [hget] at h
    obtain ⟨-, rfl⟩ := pure_ok.mp h
    exact fun e he => .inl he
  | none =>
    rw [hget] at h
    obtain ⟨x, s, hs, h⟩ := bind_ok.mp h
    obtain ⟨y, t, ht, h⟩ := bind_ok.mp h
    obtain ⟨-, rfl⟩ := pure_ok.mp h
    obtain ⟨event, hevent⟩ := note_ok.mp ht
    have hevents : s.events = q.events := by rw [change_ok.mp hs]; rfl
    obtain ⟨hkey, -, -, -, ⟨rfl, -⟩ | hgrown⟩ := append_events hevent
    · exact fun e he => .inl (hevents ▸ he)
    · intro e he
      rw [hgrown, hevents] at he
      rcases List.mem_append.mp he with he | he
      · exact .inl he
      · rw [List.mem_singleton.mp he]
        exact .inr hkey

theorem run_key_ne (key : String) : s!"{key}:run" ≠ "orchestrator:created" := by
  intro h
  have hlast := congrArg (fun k : String => k.toList.getLast?) h
  simp [toString, String.toList_append] at hlast

/-- A key that is not stored stays so when the orchestrator's actor is made. -/
theorem byKey_orchestratorActor {run : Run} {a : ActorSession} (key : String)
    (hkey : r.byKey s!"{key}:run" = none) (h : orchestratorActor P run now r = .ok (a, r')) :
    r'.byKey s!"{key}:run" = none := by
  refine List.find?_eq_none.mpr fun e he => ?_
  rcases orchestratorActor_events h e he with he | hcreated
  · exact List.find?_eq_none.mp hkey e he
  · simp only [decide_eq_true_eq]
    exact fun heq => run_key_ne key (heq.symm.trans hcreated)

/-- An event of a new key is the last of the log. -/
theorem emit_new {run : Run} {d : EventDraft} {e : Event} (hr : r.Chronological)
    (hkey : r.byKey d.idempotencyKey = none) (h : emit P run d r = .ok (e, r')) :
    r'.By e.occurredAt := by
  have happend := emit_ok.mp h
  unfold Records.append at happend
  simp only [hkey] at happend
  split_ifs at happend
  cases happend
  intro f hf
  rcases List.mem_append.mp hf with hf | hf
  · exact le_eventOf hr hf _
  · rw [List.mem_singleton.mp hf]

/-- A run that enters a state keeps its log of phases. -/
theorem Orchestrator.enter_phases {target : RunState} {phaseId : UUID} {x : Unit}
    (h : PhasesKept r) (hnew : r.phases.has phaseId = false)
    (hkey : target.terminal = false → r.byKey s!"{key}:run" = none)
    (hgoal : s.run.currentGoalVersionId = r.run.currentGoalVersionId)
    (hid : s.run.id = r.run.id)
    (hr : Orchestrator.enter P s.run target key now phaseId r = .ok (x, r')) :
    PhasesKept r' ∧ OpenShown r' := by
  have hlifecycle := Orchestrator.enter_lifecycle hid hr
  obtain ⟨actor, t, ht, hr⟩ := bind_ok.mp hr
  obtain ⟨hactor, hcoordinator, -⟩ := orchestratorActor_ok hid ht
  obtain ⟨u, hu, hr⟩ := stage_bind_ok.mp hr
  have hrun := frame_stored hcoordinator hu hid hgoal (by decide)
  have hidu : u.run.id = r.run.id := hrun.id.trans hcoordinator.id
  obtain ⟨event, v, hv, hr⟩ := bind_ok.mp hr
  obtain ⟨updated, w, hw, hr⟩ := bind_ok.mp hr
  obtain ⟨y, z, hz, hr⟩ := bind_ok.mp hr
  have hemitted : Frame [] u v := Within.frame (Within.emit (quiet_transition rfl rfl)) hv
  have hstatus : Frame [.coordinator] v w :=
    Within.frame (Within.setCoordinator (by rw [hactor, hemitted.id, hidu]) (by decide)) hw
  have hbefore : Frame [.coordinator, .lifecycle] r w :=
    ((hcoordinator.append hrun).append (hemitted.append hstatus)).mono (by decide)
  have hkept : PhasesKept w := h.of_frame hbefore (by decide)
  have hphase : Frame [.phases] w z := Within.frame updatePhase_within hz
  have hidz : (Orchestrator.moved s.run target now).id = z.run.id := by
    rw [hphase.id, hbefore.id]
    exact hid
  have hrequested : Frame [.requests, .coordinator] z r' := by
    split_ifs at hr
    · exact Within.frame (Orchestrator.requestPlanApproval_within hidz) hr
    · rw [(pure_ok.mp hr).2]
      exact Frame.refl _ _
  have hphases := hrequested.phases (by decide)
  have hshown : r'.run.uiPhase = (Orchestrator.moved s.run target now).uiPhase :=
    (congrArg Run.uiPhase hlifecycle :)
  have hstate : r'.run.state = target := (congrArg Run.state hlifecycle :)
  cases hterminal : target.terminal with
  | true =>
    rw [hterminal] at hz
    obtain ⟨hkept', hended⟩ := updatePhase_ending hkept hz
    refine ⟨hkept'.of_frame hrequested (by decide), fun p hp hnone => ?_⟩
    have hsome := hended p (hphases ▸ hp)
    rw [hnone] at hsome
    cases hsome
  | false =>
    rw [hterminal] at hz
    -- The event of the transition is new, so nothing in the log is later than it.
    have hkeyu : u.byKey s!"{key}:run" = none := by
      have hkeyt := byKey_orchestratorActor key (hkey hterminal) ht
      rwa [saveRun_ok hu]
    have hchronological : u.Chronological := hrun.timed (hcoordinator.timed h.chronological)
    have hby : v.By event.occurredAt := emit_new hchronological hkeyu hv
    have hbyw : w.By event.occurredAt := by
      obtain ⟨e, q, hq, hw⟩ := bind_ok.mp hw
      rw [read_bind_ok] at hw
      obtain ⟨_, q', hq', hw⟩ := bind_ok.mp hw
      obtain ⟨-, rfl⟩ := pure_ok.mp hw
      rw [change_ok.mp hq']
      exact (emit_by hq).2 _ le_rfl hby
    have hnow : ∃ e ∈ w.events, event.occurredAt ≤ e.occurredAt :=
      ⟨event, hstatus.grown.subset (emit_by hv).1, le_rfl⟩
    have hnew' : w.phases.has phaseId = false := by rwa [hbefore.phases (by decide)]
    obtain ⟨hkept', hopen⟩ := updatePhase_going hkept hnew' hbyw hnow hz
    refine ⟨hkept'.of_frame hrequested (by decide), fun p hp hnone => ?_⟩
    rw [hshown, hstate]
    exact ⟨hopen p (hphases ▸ hp) hnone, hterminal⟩

theorem Orchestrator.advance_phases {target : RunState} {phaseId : UUID} (h : PhasesKept r)
    (hopen : OpenShown r) (hnew : r.phases.has phaseId = false)
    (hr : stored (Orchestrator.advance P target key now phaseId) r = some r') :
    PhasesKept r' ∧ OpenShown r' := by
  rcases Orchestrator.advance_stored hr with
    rfl | hrequest | ⟨s, t, -, -, hkey, ⟨actor, hactor⟩, hs, ht, hu⟩
  · exact ⟨h, hopen⟩
  · exact ⟨h.of_frame hrequest (by decide), hopen.of_same (hrequest.phases (by decide))
      (hrequest.uiPhase (by decide)) (hrequest.state (by decide))⟩
  · have hclosed := hs.append (Within.frame (Orchestrator.close_within hs.id.symm) ht)
    rw [← hclosed.phases (by decide)] at hnew
    refine Orchestrator.enter_phases (h.of_frame hclosed (by decide)) hnew (fun hgoing => ?_)
      (hclosed.currentGoal (by decide)).symm hclosed.id.symm hu
    -- A run that goes on has nothing to cancel, so the key is as new as it was.
    unfold Orchestrator.close at ht
    rw [if_neg (by simp [hgoing])] at ht
    obtain ⟨-, rfl⟩ := pure_ok.mp ht
    exact byKey_orchestratorActor key hkey hactor

end Advancing

/-! ## Every run -/

section Runs

variable {r r' : Records} {P : Primitives} {project : Project}

/-- What a run shows of itself. -/
structure SameShown (run run' : Run) : Prop where
  phase : run'.uiPhase = run.uiPhase
  state : run'.state = run.state

theorem SameShown.of_lifecycle {run run' : Run} (h : run'.lifecycle = run.lifecycle) :
    SameShown run run' :=
  ⟨(congrArg Run.uiPhase h :), (congrArg Run.state h :)⟩

theorem PlanRevision.install_shown {plan : ValidPlan} {key : String} {repair : Bool} {now : Time}
    (hr : stored (PlanRevision.install P plan key repair now) r = some r') :
    SameShown r.run r'.run := by
  rcases PlanRevision.install_stored hr with
    rfl | hrequest | ⟨current, goal, -, -, -, -, -, -, -, -, hs⟩
  · exact ⟨rfl, rfl⟩
  · exact .of_lifecycle (hrequest.lifecycle (by decide))
  · have hrun := (PlanRevision.storeExtension_run hs).2
    exact ⟨(congrArg Run.uiPhase hrun :), (congrArg Run.state hrun :)⟩

/-- A step moves the run, or shows what the run showed and leaves its phases alone. -/
theorem Step.phases (hstep : Step P project r r') :
    (∃ target key now phaseId, r.phases.has phaseId = false ∧
      stored (Orchestrator.advance P target key now phaseId) r = some r') ∨
    SameShown r.run r'.run ∧ ∃ S, Part.phases ∉ S ∧ Frame S r r' := by
  obtain ⟨cmd, hpossible, hstored⟩ := hstep
  have hframe := Command.Leads.frame ⟨hpossible, hstored⟩
  cases cmd with
  | advance target key now phaseId =>
    exact .inl ⟨target, key, now, phaseId, by simpa [Command.possible] using hpossible,
      stored_quietly.mp hstored⟩
  | installPlan plan key now =>
    refine .inr ⟨?_, _, by simp [Command.parts], hframe⟩
    rcases Orchestrator.installPlan_stored (stored_quietly.mp hstored) with
      rfl | hrequest | ⟨valid, contract, -, -, -, -, hs⟩
    · exact ⟨rfl, rfl⟩
    · exact .of_lifecycle (hrequest.lifecycle (by decide))
    · have hrun := (Orchestrator.storeInitialPlan_run hs).2
      exact ⟨(congrArg Run.uiPhase hrun :), (congrArg Run.state hrun :)⟩
  | replan plan key now =>
    refine .inr ⟨?_, _, by simp [Command.parts], hframe⟩
    rcases GoalReplanning.install_stored (stored_quietly.mp hstored) with
      rfl | hrequest | ⟨current, -, -, hs⟩
    · exact ⟨rfl, rfl⟩
    · exact .of_lifecycle (hrequest.lifecycle (by decide))
    · have hrun := (GoalReplanning.storeReplacement_run hs).2
      exact ⟨(congrArg Run.uiPhase hrun :), (congrArg Run.state hrun :)⟩
  | replacePreview plan expected key now =>
    refine .inr ⟨?_, _, by simp [Command.parts], hframe⟩
    rcases PreviewRevision.replace_stored (stored_quietly.mp hstored) with
      rfl | ⟨current, goal, revised, -, -, -, hs⟩
    · exact ⟨rfl, rfl⟩
    · have hrun := (PreviewRevision.storeEdit_run hs).2
      exact ⟨(congrArg Run.uiPhase hrun :), (congrArg Run.state hrun :)⟩
  | installRepair plan key now =>
    exact .inr ⟨PlanRevision.install_shown (stored_quietly.mp hstored), _,
      by simp [Command.parts], hframe⟩
  | installDelivery plan key now =>
    exact .inr ⟨PlanRevision.install_shown (stored_quietly.mp hstored), _,
      by simp [Command.parts], hframe⟩
  | _ =>
    exact .inr ⟨.of_lifecycle (hframe.lifecycle (by simp [Command.parts])), _,
      by simp [Command.parts], hframe⟩

/-- The phases of a run between two steps. -/
structure PhaseLog (r : Records) : Prop where
  kept : PhasesKept r
  shown : OpenShown r

theorem Step.phaseLog (h : PhaseLog r) (hstep : Step P project r r') : PhaseLog r' := by
  rcases hstep.phases with
    ⟨target, key, now, phaseId, hnew, hr⟩ | ⟨hshown, S, hphases, hframe⟩
  · obtain ⟨hkept, hopen⟩ := Orchestrator.advance_phases h.kept h.shown hnew hr
    exact ⟨hkept, hopen⟩
  · exact ⟨h.kept.of_frame hframe hphases,
      h.shown.of_same (hframe.phases hphases) hshown.phase hshown.state⟩

theorem Created.phaseLog (h : Created P project r) : PhaseLog r := by
  obtain ⟨request, branch, base, n, now, hframe⟩ := h.frame
  have hempty :
      PhasesKept { run := GoalService.newRun project request branch base (.uuid4 n) now } :=
    ⟨.nil, .nil, fun p hp => absurd hp List.not_mem_nil, fun p hp => absurd hp List.not_mem_nil⟩
  refine ⟨hempty.of_frame hframe (by decide), fun p hp => ?_⟩
  rw [hframe.phases (by decide)] at hp
  exact absurd hp List.not_mem_nil

theorem Reachable.phaseLog (h : Reachable P project r) : PhaseLog r :=
  h.induction (fun _ => Created.phaseLog) fun _ _ hlog hstep => Step.phaseLog hlog hstep

/-- What a reader of the stored phases may rely on. -/
structure PhaseLogSound (r : Records) : Prop where
  /-- One phase is open at most. -/
  oneOpen : ∀ p ∈ r.phases, ∀ q ∈ r.phases, p.completedAt = none → q.completedAt = none → p = q
  /-- The open phase is the one the run shows. -/
  openShown : ∀ p ∈ r.phases, p.completedAt = none → p.phase = r.run.uiPhase
  /-- The iterations of a phase are `1` to `k`, in the order they started in. -/
  iterations : ∀ kind : UIPhase, ∃ l : List PhaseExecution,
    (∀ p, p ∈ l ↔ p ∈ r.phases ∧ p.phase = kind) ∧
    l.Pairwise (fun p q => p.startedAt ≤ q.startedAt) ∧
    l.map PhaseExecution.iteration = List.range' 1 l.length
  /-- Of two phases one has ended when the other starts. -/
  disjoint : ∀ p ∈ r.phases, ∀ q ∈ r.phases, p ≠ q →
    (∃ c, p.completedAt = some c ∧ c ≤ q.startedAt) ∨
    ∃ c, q.completedAt = some c ∧ c ≤ p.startedAt
  /-- A run that has ended has no phase open. -/
  closed : r.run.state.terminal = true → ∀ p ∈ r.phases, p.completedAt.isSome

/-- The log of the phases of a run is sound in every state the run reaches. -/
theorem phase_log (h : Reachable P project r) : PhaseLogSound r := by
  obtain ⟨⟨-, hbook, -, -⟩, hshown⟩ := h.phaseLog
  refine
    { oneOpen := fun p hp q hq hpopen hqopen => ?_
      openShown := fun p hp hopen => (hshown p hp hopen).1
      iterations := fun kind => ⟨phasesOf r.phases.entries kind, fun p => ?_, ?_,
        hbook.numbered kind⟩
      disjoint := fun p hp q hq hne => hbook.disjoint hp hq hne
      closed := fun hterminal p hp => ?_ }
  · obtain ⟨before, hsplit, hended⟩ := hbook.last hp hpopen
    have hmem : q ∈ before ++ [p] := hsplit ▸ hq
    rcases List.mem_append.mp hmem with hbefore | hlast
    · have hsome := hended q hbefore
      rw [hqopen] at hsome
      cases hsome
    · exact (List.mem_singleton.mp hlast).symm
  · simp [phasesOf, Table.mem_def]
  · exact hbook.ordered.filter _
  · by_contra hnone
    have hopen : p.completedAt = none := by simpa using hnone
    have hgoing := (hshown p hp hopen).2
    rw [hterminal] at hgoing
    cases hgoing

theorem sample_phase_log : PhaseLogSound Sample.working :=
  phase_log Sample.working_reachable

end Runs

end Orqalis
