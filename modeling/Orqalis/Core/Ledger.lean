import Orqalis.Core.Reach
import Mathlib.Data.List.FinRange
import Mathlib.Data.List.Indexes

/-!
# The ledger of the acceptance

What a criterion says of its outcome agrees with the evidence it refers to, whatever order
goals are revised, criteria validated and reviews recorded in. The evidence of a validation is
named after its criterion, that of a review after the review; so new evidence never takes the
place of old.
-/

namespace Orqalis

open Lib Lib.Transaction

/-! ## The ledger -/

/-- The last reference of a criterion names a piece of evidence with this outcome. -/
def Records.attests (r : Records) (c : AcceptanceCriterion) (passed : Bool) : Prop :=
  ∃ ref e, c.evidenceRefs.getLast? = some ref ∧ r.evidence.get? ref = some e ∧
    e.runId = r.run.id ∧ e.criterionId = c.id ∧ e.structuredData.passed = passed

/-- A criterion agrees with the evidence about it. -/
structure Balanced (r : Records) (c : AcceptanceCriterion) : Prop where
  pass : c.status = .pass → r.attests c true
  fail : c.status = .fail → r.attests c false
  count : c.attemptCount = c.evidenceRefs.length
  nodup : c.evidenceRefs.Nodup
  stored : ∀ ref ∈ c.evidenceRefs, r.evidence.has ref = true

/-- A contract as the goal service makes it: its identifiers are drawn at random, its criteria
are its own. -/
structure WellFormed (contract : GoalContract) : Prop where
  own : ∀ c ∈ contract.criteria, c.goalVersionId = contract.goal.id
  drawn : ∀ c ∈ contract.criteria, ∃ n, c.id = .uuid4 n
  nodup : (contract.criteria.map AcceptanceCriterion.id).Nodup

/-- The reviews a run has stored. -/
def Records.reviewed (r : Records) (id : UUID) : Prop :=
  ∃ reviews, r.storedReviews = .ok reviews ∧ id ∈ reviews.map ReviewRecord.id

/-- The ledger of a run, where evidence is named after criteria and after the reviews `N`. -/
structure Ledger (N : UUID → Prop) (r : Records) : Prop where
  contracts : ∀ contract ∈ r.goals, WellFormed contract
  balanced : ∀ contract ∈ r.goals, ∀ c ∈ contract.criteria, Balanced r c
  named : ∀ e ∈ r.evidence, ∃ ns name, e.id = .uuid5 ns name ∧ ((∃ n, ns = .uuid4 n) ∨ N ns)

variable {N : UUID → Prop} {r r' : Records}

theorem Balanced.of_evidence {c : AcceptanceCriterion} (h : Balanced r c)
    (hid : r'.run.id = r.run.id)
    (hget : ∀ ref e, r.evidence.get? ref = some e → r'.evidence.get? ref = some e) :
    Balanced r' c where
  pass hstatus := by
    obtain ⟨ref, e, hlast, he, hrun, hrest⟩ := h.pass hstatus
    exact ⟨ref, e, hlast, hget ref e he, hrun.trans hid.symm, hrest⟩
  fail hstatus := by
    obtain ⟨ref, e, hlast, he, hrun, hrest⟩ := h.fail hstatus
    exact ⟨ref, e, hlast, hget ref e he, hrun.trans hid.symm, hrest⟩
  count := h.count
  nodup := h.nodup
  stored ref href := by
    obtain ⟨e, he⟩ := Option.isSome_iff_exists.mp (h.stored ref href)
    exact Option.isSome_iff_exists.mpr ⟨e, hget ref e he⟩

theorem Ledger.of_frame {S : List Part} (h : Ledger N r) (hframe : Frame S r r')
    (hgoals : Part.goals ∉ S) (hevidence : Part.evidence ∉ S) : Ledger N r' where
  contracts := by
    rw [hframe.goals hgoals]
    exact h.contracts
  balanced contract hcontract c hc := by
    rw [hframe.goals hgoals] at hcontract
    refine (h.balanced contract hcontract c hc).of_evidence hframe.id fun ref e he => ?_
    rw [hframe.evidence hevidence]
    exact he
  named := by
    rw [hframe.evidence hevidence]
    exact h.named

theorem Ledger.mono {M : UUID → Prop} (h : Ledger N r) (hNM : ∀ id, N id → M id) :
    Ledger M r where
  contracts := h.contracts
  balanced := h.balanced
  named e he := by
    obtain ⟨ns, name, hid, hns⟩ := h.named e he
    exact ⟨ns, name, hid, hns.imp_right (hNM ns)⟩

/-! ## One entry -/

/-- A criterion with a status that claims no outcome agrees with its evidence as before. -/
theorem Balanced.testing {c : AcceptanceCriterion} (h : Balanced r c) :
    Balanced r { c with status := .testing } where
  pass := nofun
  fail := nofun
  count := h.count
  nodup := h.nodup
  stored := h.stored

/-- What replacing a criterion does to the contracts of a run. -/
theorem mem_saveCriterion {c : AcceptanceCriterion} {contract : GoalContract}
    (h : contract ∈ (r.saveCriterion c).goals) :
    contract ∈ r.goals ∨
      ∃ old ∈ r.goals, old.goal.id = c.goalVersionId ∧
        contract = Records.replaceCriterion old c := by
  unfold Records.saveCriterion at h
  split at h
  · exact .inl h
  · next old hold =>
    have hkey := Table.key_of_get? hold
    split_ifs at h
    · rcases Table.mem_put.mp h with rfl | ⟨h, -⟩
      · exact .inr ⟨old, Table.mem_of_get? hold, hkey, rfl⟩
      · exact .inl h
    · exact .inl h

theorem saveCriterion_eq {c : AcceptanceCriterion} {contract : GoalContract}
    (hget : r.goals.get? c.goalVersionId = some contract)
    (hc : ∃ item ∈ contract.criteria, item.id = c.id) :
    r.saveCriterion c =
      { r with goals := r.goals.put (Records.replaceCriterion contract c) } := by
  unfold Records.saveCriterion
  rw [hget]
  exact if_pos (by simpa using hc)

theorem mem_replaceCriterion {contract : GoalContract} {c item : AcceptanceCriterion}
    (h : item ∈ (Records.replaceCriterion contract c).criteria) :
    item ∈ contract.criteria ∧ item.id ≠ c.id ∨
      item = c ∧ ∃ old ∈ contract.criteria, old.id = c.id := by
  obtain ⟨old, hold, rfl⟩ := List.mem_map.mp h
  split_ifs with hid
  · exact .inr ⟨rfl, old, hold, hid⟩
  · exact .inl ⟨hold, hid⟩

theorem WellFormed.replaceCriterion {contract : GoalContract} {c : AcceptanceCriterion}
    (h : WellFormed contract) (hc : c.goalVersionId = contract.goal.id) :
    WellFormed (Records.replaceCriterion contract c) where
  own item hitem := by
    rcases mem_replaceCriterion hitem with ⟨hitem, -⟩ | ⟨rfl, -⟩
    · exact h.own item hitem
    · exact hc
  drawn item hitem := by
    rcases mem_replaceCriterion hitem with ⟨hitem, -⟩ | ⟨rfl, old, hold, hid⟩
    · exact h.drawn item hitem
    · rw [← hid]
      exact h.drawn old hold
  nodup := by
    have hids : (Records.replaceCriterion contract c).criteria.map AcceptanceCriterion.id =
        contract.criteria.map AcceptanceCriterion.id := by
      unfold Records.replaceCriterion
      rw [List.map_map]
      refine List.map_congr_left fun item _ => ?_
      simp only [Function.comp]
      split_ifs with hid
      · exact hid.symm
      · rfl
    rw [hids]
    exact h.nodup

/-- The ledger with a criterion replaced by one that agrees with its evidence. -/
theorem Ledger.saveCriterion {c : AcceptanceCriterion} (h : Ledger N r)
    (hc : Balanced r c) :
    Ledger N (r.saveCriterion c) := by
  have hframe : Frame [.goals] r (r.saveCriterion c) := frame_saveCriterion c
  have hbalanced : ∀ item, Balanced r item → Balanced (r.saveCriterion c) item := by
    intro item hitem
    refine hitem.of_evidence hframe.id fun ref e he => ?_
    rw [hframe.evidence (by decide)]
    exact he
  refine ⟨fun contract hcontract => ?_, fun contract hcontract item hitem => ?_, ?_⟩
  · rcases mem_saveCriterion hcontract with hcontract | ⟨old, hold, hgoal, rfl⟩
    · exact h.contracts contract hcontract
    · exact (h.contracts old hold).replaceCriterion hgoal.symm
  · rcases mem_saveCriterion hcontract with hcontract | ⟨old, hold, -, rfl⟩
    · exact hbalanced item (h.balanced contract hcontract item hitem)
    · rcases mem_replaceCriterion hitem with ⟨hitem, -⟩ | ⟨rfl, -⟩
      · exact hbalanced item (h.balanced old hold item hitem)
      · exact hbalanced _ hc
  · rw [hframe.evidence (by decide)]
    exact h.named

/-- New evidence takes the place of none. -/
theorem get?_put_fresh {e : Evidence} (hfresh : r.evidence.has e.id = false) (ref : UUID)
    (old : Evidence) (hold : r.evidence.get? ref = some old) :
    (r.evidence.put e).get? ref = some old := by
  rw [Table.get?_put, if_neg]
  · exact hold
  · rintro rfl
    rw [Table.has, hold] at hfresh
    cases hfresh

/-- The ledger with one more piece of evidence. -/
theorem Ledger.putEvidence {e : Evidence} (h : Ledger N r)
    (hfresh : r.evidence.has e.id = false)
    (hname : ∃ ns name, e.id = .uuid5 ns name ∧ ((∃ n, ns = .uuid4 n) ∨ N ns)) :
    Ledger N { r with evidence := r.evidence.put e } where
  contracts := h.contracts
  balanced contract hcontract c hc :=
    (h.balanced contract hcontract c hc).of_evidence rfl (get?_put_fresh hfresh)
  named := Table.forall_put h.named hname

/-- A criterion evaluated on new evidence agrees with it. -/
theorem Balanced.evaluated {c : AcceptanceCriterion} {e : Evidence} {status : AcceptanceStatus}
    {now : Time} (h : Balanced r c) (hfresh : r.evidence.has e.id = false)
    (hrun : e.runId = r.run.id) (hcriterion : e.criterionId = c.id)
    (hpass : status = .pass → e.structuredData.passed = true)
    (hfail : status = .fail → e.structuredData.passed = false) :
    Balanced { r with evidence := r.evidence.put e }
      (GoalService.evaluated c status e.id now) where
  pass hstatus :=
    ⟨e.id, e, by simp [GoalService.evaluated], Table.get?_put_self _ _, hrun, hcriterion,
      hpass hstatus⟩
  fail hstatus :=
    ⟨e.id, e, by simp [GoalService.evaluated], Table.get?_put_self _ _, hrun, hcriterion,
      hfail hstatus⟩
  count := by
    rw [GoalService.evaluated, h.count]
    simp
  nodup := by
    refine List.nodup_append.mpr ⟨h.nodup, List.nodup_singleton _, fun ref href other hother => ?_⟩
    rw [List.mem_singleton.mp hother]
    rintro rfl
    have hstored := h.stored _ href
    rw [hfresh] at hstored
    cases hstored
  stored ref href := by
    rcases List.mem_append.mp href with href | href
    · obtain ⟨old, hold⟩ := Option.isSome_iff_exists.mp (h.stored ref href)
      exact Option.isSome_iff_exists.mpr ⟨old, get?_put_fresh hfresh ref old hold⟩
    · rw [List.mem_singleton.mp href]
      exact Option.isSome_iff_exists.mpr ⟨e, Table.get?_put_self _ _⟩

/-- An evaluation of a stored criterion on new evidence keeps the ledger. -/
theorem Ledger.evaluate {contract : GoalContract} {c : AcceptanceCriterion} {e : Evidence}
    {status : AcceptanceStatus} {now : Time} (h : Ledger N r) (hcontract : contract ∈ r.goals)
    (hc : c ∈ contract.criteria) (hfresh : r.evidence.has e.id = false)
    (hname : ∃ ns name, e.id = .uuid5 ns name ∧ ((∃ n, ns = .uuid4 n) ∨ N ns))
    (hrun : e.runId = r.run.id) (hcriterion : e.criterionId = c.id)
    (hpass : status = .pass → e.structuredData.passed = true)
    (hfail : status = .fail → e.structuredData.passed = false)
    (hsave : r.saveEvaluation (GoalService.evaluated c status e.id now) e = .ok r') :
    Ledger N r' := by
  unfold Records.saveEvaluation at hsave
  split_ifs at hsave
  cases hsave
  exact (h.putEvidence hfresh hname).saveCriterion
    ((h.balanced contract hcontract c hc).evaluated hfresh hrun hcriterion hpass hfail)

/-! ## Goals -/

/-- A contract as the goal service makes it. -/
theorem GoalService.contractOf_wellFormed {runId : UUID} {draft : GoalDraft} {version : Nat}
    {supersedes : Option UUID} {reason : Option String} {n : Nat} {now : Time} :
    WellFormed (GoalService.contractOf runId draft version supersedes reason n now) where
  own c hc := by
    obtain ⟨i, hi, rfl⟩ := List.mem_mapIdx.mp hc
    rfl
  drawn c hc := by
    obtain ⟨i, hi, rfl⟩ := List.mem_mapIdx.mp hc
    exact ⟨n + 1 + i, rfl⟩
  nodup := by
    rw [GoalService.contractOf, List.mapIdx_eq_ofFn, List.map_ofFn, List.nodup_ofFn]
    intro i j hij
    simpa [Fin.ext_iff] using hij

theorem GoalService.contractOf_balanced {runId : UUID} {draft : GoalDraft} {version : Nat}
    {supersedes : Option UUID} {reason : Option String} {n : Nat} {now : Time} :
    ∀ c ∈ (GoalService.contractOf runId draft version supersedes reason n now).criteria,
      Balanced r c := by
  intro c hc
  obtain ⟨i, hi, rfl⟩ := List.mem_mapIdx.mp hc
  exact ⟨nofun, nofun, rfl, List.nodup_nil, nofun⟩

/-- A new goal keeps the ledger. -/
theorem Ledger.saveGoal {runId : UUID} {draft : GoalDraft} {version : Nat}
    {supersedes : Option UUID} {reason : Option String} {n : Nat} {now : Time}
    (h : Ledger N r)
    (hsave : r.saveGoal (GoalService.contractOf runId draft version supersedes reason n now) =
      .ok r') :
    Ledger N r' := by
  unfold Records.saveGoal at hsave
  split_ifs at hsave
  cases hsave
  refine ⟨Table.forall_put h.contracts GoalService.contractOf_wellFormed,
    fun contract hcontract c hc => ?_, h.named⟩
  rcases Table.mem_put.mp hcontract with rfl | ⟨hcontract, -⟩
  · exact GoalService.contractOf_balanced c hc
  · exact (h.balanced contract hcontract c hc).of_evidence rfl fun _ _ he => he

section Commands

variable {P : Primitives} {now : Time}

theorem GoalService.defineInitial_ledger {executionId : UUID} {draft : GoalDraft} {n : Nat}
    (h : Ledger N r)
    (hr : stored (GoalService.defineInitial P executionId draft n now) r = some r') :
    Ledger N r' := by
  unfold GoalService.defineInitial at hr
  rw [show lockedRun = Transaction.read Records.run from rfl, stored_read_bind] at hr
  obtain ⟨-, -, hr⟩ := (Reads.failIf _ _).stored_bind hr
  rw [stored_read_bind] at hr
  split_ifs at hr
  · rw [(Reads.bind (Reads.found _ _) fun _ => Reads.bind (Reads.failIf _ _) fun _ =>
      Reads.pure _).stored_eq hr]
    exact h
  · obtain ⟨attempt, -, hr⟩ := Reads.requirementsAttempt.stored_bind hr
    obtain ⟨c, hc, hr⟩ := Reads.contract.stored_bind hr
    obtain rfl := contract_ok hc
    obtain ⟨x, s, hs, hr⟩ := (Silent.stage _).stored_bind hr
    refine (h.saveGoal (stage_ok.mp hs)).of_frame (Within.stored (Within.bind
      (Within.stage fun _ _ _ h => frame_setCurrentGoal h) fun _ => Within.bind
      ((GoalService.announceGoal_within GoalService.contractOf_pending).mono (by decide))
      fun _ => Within.pure _) hr) (by decide) (by decide)

theorem GoalService.revise_ledger {draft : GoalDraft} {reason : String}
    {expectedVersion n : Nat} (h : Ledger N r)
    (hr : stored (GoalService.revise P draft reason expectedVersion n now) r = some r') :
    Ledger N r' := by
  unfold GoalService.revise at hr
  obtain ⟨-, -, hr⟩ := (Reads.failIf _ _).stored_bind hr
  rw [show lockedRun = Transaction.read Records.run from rfl, stored_read_bind] at hr
  obtain ⟨-, -, hr⟩ := (Reads.failIf _ _).stored_bind hr
  obtain ⟨-, -, hr⟩ := (Reads.failIf _ _).stored_bind hr
  rw [stored_read_bind] at hr
  obtain ⟨-, -, hr⟩ := (Reads.failIf _ _).stored_bind hr
  obtain ⟨current, -, hr⟩ := (Reads.found _ _).stored_bind hr
  obtain ⟨c, hc, hr⟩ := Reads.contract.stored_bind hr
  obtain rfl := contract_ok hc
  obtain ⟨x, s, hs, hr⟩ := (Silent.stage _).stored_bind hr
  refine (h.saveGoal (stage_ok.mp hs)).of_frame (Within.stored (Within.bind
    (Within.stage fun _ _ _ h => frame_setCurrentGoal h) fun _ => Within.bind
    ((GoalService.announceGoal_within GoalService.contractOf_pending).mono (by decide))
    fun _ => Within.pure _) hr) (by decide) (by decide)

/-! ## Validations -/

/-- The contract of the current goal is one of the contracts. -/
theorem mem_of_currentGoal {run : Run} {contract : GoalContract}
    (h : r.currentGoal run = some contract) : contract ∈ r.goals := by
  obtain ⟨goalId, -, hgoal⟩ := Option.bind_eq_some_iff.mp h
  exact Table.mem_of_get? hgoal

theorem GoalService.startValidation_ledger {criterionKey key : String}
    {executionId : Option UUID} (h : Ledger N r)
    (hr : stored (GoalService.startValidation P criterionKey key executionId now) r = some r') :
    Ledger N r' := by
  unfold GoalService.startValidation at hr
  obtain ⟨-, -, hr⟩ := (Reads.failIf _ _).stored_bind hr
  rw [show lockedRun = Transaction.read Records.run from rfl, stored_read_bind] at hr
  obtain ⟨contract, hcontract, hr⟩ := Reads.validatedGoal.stored_bind hr
  obtain ⟨criterion, hcriterion, hr⟩ := (Reads.found _ _).stored_bind hr
  rw [stored_read_bind] at hr
  split at hr
  · cases hr
    exact h
  · obtain ⟨-, -, hr⟩ := (Reads.failIf _ _).stored_bind hr
    obtain ⟨attempt, -, hr⟩ := Reads.validatingAttempt.stored_bind hr
    obtain ⟨x, s, hs, hr⟩ := (Silent.change _).stored_bind hr
    have hmem : contract ∈ r.goals := by
      unfold GoalService.validatedGoal at hcontract
      rw [read_bind_ok] at hcontract
      obtain ⟨-, hcontract⟩ := failIf_bind_ok.mp hcontract
      exact mem_of_currentGoal (found_ok.mp hcontract).1
    have hc : criterion ∈ contract.criteria := List.mem_of_find?_eq_some (found_ok.mp hcriterion).1
    have htesting := h.saveCriterion (h.balanced contract hmem criterion hc).testing
    rw [change_ok.mp hs] at hr
    refine htesting.of_frame (Within.stored (S := []) (Within.bind
      (Within.note (quiet_of_status ?_ (by simp))) fun _ => Within.pure _) hr)
      (by decide) (by decide)
    simp [settledWords, TaskStatus.value, AcceptanceStatus.value]

/-- The status of a validation is the outcome it has seen. -/
theorem validatedStatus_passed {run : Run} {spec : ValidationSpec} {seen : ValidationObservation} :
    (GoalService.validatedStatus run spec seen = .pass → seen.passed = true) ∧
      (GoalService.validatedStatus run spec seen = .fail → seen.passed = false) := by
  unfold GoalService.validatedStatus
  split_ifs <;> simp_all

theorem GoalService.finishValidation_ledger {criterion : AcceptanceCriterion} {key : String}
    {actorId taskId executionId : Option UUID}
    {observation : Except String ValidationObservation} (h : Ledger N r)
    (hfresh : r.evidence.has (GoalService.evidenceId criterion.id key) = false)
    (hr : stored (GoalService.finishValidation P criterion key actorId taskId executionId
      observation now) r = some r') :
    Ledger N r' := by
  unfold GoalService.finishValidation at hr
  rw [show lockedRun = Transaction.read Records.run from rfl, stored_read_bind] at hr
  obtain ⟨-, -, hr⟩ := (Reads.failIf _ _).stored_bind hr
  rw [stored_read_bind] at hr
  obtain ⟨latest, hlatest, hr⟩ := (Reads.found _ _).stored_bind hr
  obtain ⟨current, hcurrent, hr⟩ := (Reads.found _ _).stored_bind hr
  obtain ⟨x, s, hs, hr⟩ := (Silent.stage _).stored_bind hr
  have hmem : latest ∈ r.goals := mem_of_currentGoal (found_ok.mp hlatest).1
  have hfind := (found_ok.mp hcurrent).1
  have hc : current ∈ latest.criteria := List.mem_of_find?_eq_some hfind
  have hid : current.id = criterion.id := by simpa using List.find?_some hfind
  obtain ⟨n, hn⟩ := (h.contracts latest hmem).drawn current hc
  refine (h.evaluate hmem hc hfresh ⟨criterion.id, key, rfl, .inl ⟨n, ?_⟩⟩ rfl hid.symm
    validatedStatus_passed.1 validatedStatus_passed.2 (stage_ok.mp hs)).of_frame (Within.stored
      (Within.bind GoalService.announceOutcome_within fun _ => Within.pure _) hr)
    (by decide) (by decide)
  rw [← hid, hn]

/-! ## Reviews -/

/-- What the rest of a review's verdicts is judged on: the criteria it is about stand as they
were when the review began, and no evidence of theirs is stored. -/
structure Unjudged (goal : GoalContract) (reviewId : UUID) (rest : List UUID) (r : Records) :
    Prop where
  stored : ∃ contract ∈ r.goals, contract.goal.id = goal.goal.id ∧
    ∀ c ∈ goal.criteria, c.id ∈ rest → c ∈ contract.criteria
  fresh : ∀ id ∈ rest, r.evidence.has (.uuid5 reviewId id.text) = false

theorem Unjudged.of_frame {goal : GoalContract} {reviewId : UUID} {rest : List UUID}
    {S : List Part} (h : Unjudged goal reviewId rest r) (hframe : Frame S r r')
    (hgoals : Part.goals ∉ S) (hevidence : Part.evidence ∉ S) :
    Unjudged goal reviewId rest r' where
  stored := by
    rw [hframe.goals hgoals]
    exact h.stored
  fresh := by
    rw [hframe.evidence hevidence]
    exact h.fresh

/-- A verdict on one criterion leaves the others to be judged. -/
theorem Unjudged.evaluate {goal : GoalContract} {reviewId : UUID} {id : UUID} {rest : List UUID}
    {c : AcceptanceCriterion} {e : Evidence} {status : AcceptanceStatus} {now : Time}
    (h : Unjudged goal reviewId (id :: rest) r) (hgoal : ∀ c ∈ goal.criteria,
      c.goalVersionId = goal.goal.id) (hc : c ∈ goal.criteria) (hid : c.id = id)
    (hnot : id ∉ rest) (he : e.id = .uuid5 reviewId c.id.text)
    (hsave : r.saveEvaluation (GoalService.evaluated c status e.id now) e = .ok r') :
    Unjudged goal reviewId rest r' := by
  unfold Records.saveEvaluation at hsave
  split_ifs at hsave
  cases hsave
  refine ⟨?_, fun other hother => ?_⟩
  · obtain ⟨contract, hcontract, hkey, hcriteria⟩ := h.stored
    have hget : r.goals.get? contract.goal.id = some contract := Table.get?_of_mem hcontract
    rw [hkey, ← hgoal c hc] at hget
    refine ⟨Records.replaceCriterion contract (GoalService.evaluated c status e.id now), ?_, hkey,
      fun item hitem hrest => ?_⟩
    · rw [saveCriterion_eq (r := { r with evidence := r.evidence.put e })
        (c := GoalService.evaluated c status e.id now) hget
        ⟨c, hcriteria c hc (by simp [hid]), rfl⟩]
      exact Table.mem_put_self _ _
    · have hne : item.id ≠ c.id := by
        rintro heq
        rw [heq, hid] at hrest
        exact hnot hrest
      refine List.mem_map.mpr ⟨item, hcriteria item hitem (List.mem_cons_of_mem _ hrest), ?_⟩
      exact if_neg hne
  · have hframe := frame_saveCriterion (r := { r with evidence := r.evidence.put e })
      (GoalService.evaluated c status e.id now)
    have hne : e.id ≠ .uuid5 reviewId other.text := by
      rw [he]
      intro heq
      have htext := (UUID.uuid5.inj heq).2
      rw [← UUID.text_injective htext, hid] at hother
      exact hnot hother
    unfold Table.has
    rw [hframe.evidence (by decide), Table.get?_put, if_neg hne]
    exact h.fresh other (List.mem_cons_of_mem _ hother)

theorem Reads.referenced {run : Run} {criterion : AcceptanceCriterion} {item : CriterionReview} :
    Reads (ReviewService.referenced run criterion item) :=
  Reads.bind (Reads.read _) fun _ => Reads.found _ _

/-- A verdict keeps the ledger, and leaves the others to be judged. -/
theorem ReviewService.judge_ledger {run : Run} {actorId reviewId : UUID} {goal : GoalContract}
    {view : SourceView} {item : CriterionReview} {rest : List UUID} {x : Unit}
    (h : Ledger N r) (hreview : N reviewId) (hrun : run.id = r.run.id)
    (hgoal : ∀ c ∈ goal.criteria, c.goalVersionId = goal.goal.id)
    (hpending : Unjudged goal reviewId (item.criterionId :: rest) r)
    (hnot : item.criterionId ∉ rest)
    (hr : ReviewService.judge P run actorId reviewId goal view now item r = .ok (x, r')) :
    Ledger N r' ∧ Unjudged goal reviewId rest r' := by
  obtain ⟨criterion, hcriterion, hr⟩ := found_bind_ok.mp hr
  have hc : criterion ∈ goal.criteria := List.mem_of_find?_eq_some hcriterion
  have hid : criterion.id = item.criterionId := by simpa using List.find?_some hcriterion
  obtain ⟨contract, hcontract, hgoalId, hcriteria⟩ := hpending.stored
  have hstored : criterion ∈ contract.criteria := hcriteria criterion hc (by simp [hid])
  have hfresh : r.evidence.has (.uuid5 reviewId criterion.id.text) = false := by
    rw [hid]
    exact hpending.fresh _ (by simp)
  -- What both verdicts do: the evaluation, and events after it.
  have hverdict : ∀ (status : AcceptanceStatus) (seen : ValidationObservation) (s : Records),
      r.saveEvaluation (GoalService.evaluated criterion status
          (ReviewService.proofOf run reviewId criterion seen now).id now)
        (ReviewService.proofOf run reviewId criterion seen now) = .ok s →
      (status = .pass → seen.passed = true) → (status = .fail → seen.passed = false) →
      Frame [] s r' → Ledger N r' ∧ Unjudged goal reviewId rest r' := by
    intro status seen s hs hpass hfail hframe
    have hledger := h.evaluate hcontract hstored hfresh
      ⟨reviewId, criterion.id.text, rfl, .inr hreview⟩ hrun rfl hpass hfail hs
    have hrest := hpending.evaluate hgoal hc hid hnot rfl hs
    exact ⟨hledger.of_frame hframe (by decide) (by decide),
      hrest.of_frame hframe (by decide) (by decide)⟩
  obtain ⟨evidence, -, hr⟩ := Reads.referenced.bind_ok hr
  cases hstatus : item.status with
  | pass =>
    rw [hstatus] at hr
    split_ifs at hr
    · obtain ⟨-, hr⟩ := failIf_bind_ok.mp hr
      obtain ⟨-, -, hr⟩ := Reads.requireSources.bind_ok hr
      obtain ⟨t, ht, hr⟩ := stage_bind_ok.mp hr
      exact hverdict .pass _ t ht (fun _ => rfl) nofun (Within.frame (Within.bind
        (Within.note (quiet_of_apart (by rfl))) fun _ => Within.note (quiet_of_apart (by rfl))) hr)
    · rw [(failIf_ok.mp hr).2]
      have hmono : Unjudged goal reviewId rest r :=
        ⟨⟨contract, hcontract, hgoalId, fun c hc hrest =>
          hcriteria c hc (List.mem_cons_of_mem _ hrest)⟩,
          fun id hid => hpending.fresh id (List.mem_cons_of_mem _ hid)⟩
      exact ⟨h, hmono⟩
  | fail =>
    rw [hstatus] at hr
    obtain ⟨-, hr⟩ := failIf_bind_ok.mp hr
    obtain ⟨t, ht, hr⟩ := stage_bind_ok.mp hr
    exact hverdict .fail _ t ht nofun (fun _ => rfl)
      (Within.frame (Within.note (quiet_of_apart (by rfl))) hr)

/-- The verdicts of a review, each on a criterion of its own, keep the ledger. -/
theorem ReviewService.verdicts_ledger {run : Run} {actorId reviewId : UUID}
    {goal : GoalContract} {view : SourceView} {items : List CriterionReview} {x : Unit}
    (h : Ledger N r) (hreview : N reviewId) (hrun : run.id = r.run.id)
    (hgoal : ∀ c ∈ goal.criteria, c.goalVersionId = goal.goal.id)
    (hpending : Unjudged goal reviewId (items.map CriterionReview.criterionId) r)
    (hnodup : (items.map CriterionReview.criterionId).Nodup)
    (hr : items.forM (ReviewService.judge P run actorId reviewId goal view now) r = .ok (x, r')) :
    Ledger N r' := by
  induction items generalizing r with
  | nil =>
    rw [(pure_ok.mp hr).2]
    exact h
  | cons item items ih =>
    rw [List.forM_eq_forM, List.forM_cons] at hr
    obtain ⟨y, s, hs, hr⟩ := bind_ok.mp hr
    rw [List.map_cons] at hpending hnodup
    obtain ⟨hnot, hnodup⟩ := List.nodup_cons.mp hnodup
    obtain ⟨hledger, hrest⟩ := ReviewService.judge_ledger h hreview hrun hgoal hpending hnot hs
    have hid : s.run.id = r.run.id := (Within.frame ReviewService.judge_within hs).id
    exact ih hledger (hrun.trans hid.symm) hrest hnodup hr

/-- Entries of a run stay such with one more that has an identifier of its own. -/
theorem models_append {α : Type} {id owner : α → UUID} {key : String} {runId : UUID}
    {stored values : List α} {a : α} (h : models id owner key runId stored = .ok values)
    (hnew : ¬ values.any fun v => id v = id a) (ha : owner a = runId) :
    models id owner key runId (values ++ [a]) = .ok (values ++ [a]) := by
  unfold models at h
  split_ifs at h with hmodels
  cases h
  refine if_pos ⟨?_, fun v hv => ?_⟩
  · rw [List.map_append, List.nodup_append]
    refine ⟨hmodels.1, List.nodup_singleton _, fun i hi other hother => ?_⟩
    obtain ⟨v, hv, rfl⟩ := List.mem_map.mp hi
    rw [List.map_singleton, List.mem_singleton] at hother
    rw [hother]
    intro heq
    exact hnew (List.any_eq_true.mpr ⟨v, hv, by simpa using heq⟩)
  · rcases List.mem_append.mp hv with hv | hv
    · exact hmodels.2 v hv
    · rw [List.mem_singleton.mp hv]
      exact ha

/-- A stored review is one more review. -/
theorem saveReview_stored {review : ReviewRecord} (hrun : review.runId = r.run.id)
    (h : r.saveReview review = .ok r') :
    ∃ values, r.storedReviews = .ok values ∧ r'.storedReviews = .ok (values ++ [review]) := by
  unfold Records.saveReview at h
  obtain ⟨values, hvalues, h⟩ := Outcome.bind_eq_ok.mp h
  split_ifs at h with hnew
  obtain ⟨d, hd, h⟩ := Outcome.bind_eq_ok.mp h
  cases h
  refine ⟨values, hvalues, ?_⟩
  unfold Records.storedReviews at hvalues
  rw [hd, Outcome.ok_bind] at hvalues
  exact models_append hvalues hnew hrun

/-- The identifiers of a review's verdicts, where each criterion has one, are distinct. -/
theorem nodup_of_cover {goal : GoalContract} {reviewed : List UUID}
    (hnodup : (goal.criteria.map AcceptanceCriterion.id).Nodup)
    (hcover : ∀ c ∈ goal.criteria, c.id ∈ reviewed)
    (hlength : reviewed.length = goal.criteria.length) : reviewed.Nodup := by
  have hsub : goal.criteria.map AcceptanceCriterion.id ⊆ reviewed := by
    intro id hid
    obtain ⟨c, hc, rfl⟩ := List.mem_map.mp hid
    exact hcover c hc
  have hperm := (List.subperm_of_subset hnodup hsub).perm_of_length_le (by simp [hlength])
  exact hperm.nodup_iff.mp hnodup

theorem reviewedGoal_ok {run : Run} {result : ReviewResult} {goal : GoalContract}
    (h : ReviewService.reviewedGoal run result r = .ok (goal, r')) :
    goal ∈ r.goals ∧ (∀ c ∈ goal.criteria, c.id ∈ result.criteria.map CriterionReview.criterionId) ∧
      (result.criteria.map CriterionReview.criterionId).length = goal.criteria.length := by
  unfold ReviewService.reviewedGoal at h
  rw [read_bind_ok] at h
  obtain ⟨workspace, -, h⟩ := ask_bind_ok.mp h
  obtain ⟨found, hfound, h⟩ := found_bind_ok.mp h
  obtain ⟨-, h⟩ := failIf_bind_ok.mp h
  obtain ⟨hcover, h⟩ := failIf_bind_ok.mp h
  obtain ⟨rfl, rfl⟩ := pure_ok.mp h
  refine ⟨mem_of_currentGoal hfound, fun c hc => ?_, ?_⟩
  · by_contra hnot
    exact hcover (.inr (.inl (List.any_eq_true.mpr ⟨c, hc, by simpa using hnot⟩)))
  · by_contra hne
    exact hcover (.inr (.inr hne))

theorem Silent.judge {run : Run} {actorId reviewId : UUID} {goal : GoalContract}
    {view : SourceView} {item : CriterionReview} :
    Silent (ReviewService.judge P run actorId reviewId goal view now item) := by
  refine Silent.bind (Silent.found _ _) fun criterion => Silent.bind Reads.referenced.silent
    fun evidence => ?_
  split
  · exact Silent.ite (Silent.bind (Silent.failIf _ _) fun _ => Silent.bind
      Reads.requireSources.silent fun _ => Silent.bind (Silent.stage _) fun _ =>
      Silent.bind (Silent.note _ _ _) fun _ => Silent.note _ _ _) (Silent.failIf _ _)
  · exact Silent.bind (Silent.failIf _ _) fun _ => Silent.bind (Silent.stage _) fun _ =>
      Silent.note _ _ _

theorem Silent.reviewExternalFindings {run : Run} {actorId reviewId : UUID}
    {result : ReviewResult} {goal : GoalContract} {view : SourceView} :
    Silent (ReviewService.reviewExternalFindings P run actorId reviewId result goal view now) := by
  refine Silent.bind (Silent.ask _) fun _ => Silent.bind (Silent.failIf _ _) fun _ =>
    Silent.bind (Silent.forM fun review _ => ?_) fun _ => Silent.bind (Silent.failIf _ _)
    fun _ => Silent.pure _
  exact Silent.bind (Silent.found _ _) fun _ => Silent.bind (Silent.failIf _ _) fun _ =>
    Silent.ite (Silent.bind (Silent.failIf _ _) fun _ => Silent.bind
      (Silent.mapM fun _ _ => Reads.checkReference.silent) fun _ =>
      Silent.bind (Silent.failIf _ _) fun _ => Silent.bind Reads.requireSources.silent fun _ =>
      Silent.bind (Silent.stage _) fun _ => Silent.note _ _ _) (Silent.pure ())

theorem ReviewService.record_ledger {actorId : UUID} {result : ReviewResult} {key : String}
    {view : SourceView} (h : Ledger r.reviewed r)
    (hr : stored (ReviewService.record P actorId result key view now) r = some r') :
    Ledger r'.reviewed r' := by
  unfold ReviewService.record at hr
  obtain ⟨-, -, hr⟩ := (Reads.failIf _ _).stored_bind hr
  rw [show lockedRun = Transaction.read Records.run from rfl, stored_read_bind] at hr
  obtain ⟨reviews, hreviews, hr⟩ := (Reads.ask _).stored_bind hr
  have hreviews := (ask_ok.mp hreviews).1
  split at hr
  · rw [(Reads.bind (Reads.failIf _ _) fun _ => Reads.pure _).stored_eq hr]
    exact h
  · next hnew =>
    obtain ⟨-, -, hr⟩ := Reads.requireReviewer.stored_bind hr
    obtain ⟨goal, hgoal, hr⟩ := Reads.reviewedGoal.stored_bind hr
    obtain ⟨hmem, hcover, hlength⟩ := reviewedGoal_ok hgoal
    obtain ⟨unresolved, s, hs, hr⟩ := Silent.reviewExternalFindings.stored_bind hr
    obtain ⟨-, -, hr⟩ := (Reads.failIf _ _).stored_bind hr
    obtain ⟨x, t, ht, hr⟩ := (Silent.forM fun _ _ => Silent.judge).stored_bind hr
    set reviewId := UUID.uuid5 r.run.id s!"review:{key}" with hreviewId
    have hfindings : Frame [.reports] r s :=
      Within.frame ReviewService.reviewExternalFindings_within hs
    have hwellFormed := h.contracts goal hmem
    have hunused : ¬ r.reviewed reviewId := by
      rintro ⟨stored, hstored, hin⟩
      unfold Records.reviews at hreviews
      rw [hstored, Outcome.ok_bind] at hreviews
      cases hreviews
      obtain ⟨review, hreview, hid⟩ := List.mem_map.mp hin
      have hother := List.find?_eq_none.mp hnew review (mem_sortEntities.mpr hreview)
      exact absurd hid (by simpa using hother)
    have hpending : Unjudged goal reviewId (result.criteria.map CriterionReview.criterionId) r := by
      refine ⟨⟨goal, hmem, rfl, fun c hc _ => hc⟩, fun id _ => ?_⟩
      by_contra hstored
      obtain ⟨e, he⟩ := Option.isSome_iff_exists.mp (Bool.of_not_eq_false hstored)
      obtain ⟨ns, name, hname, hns⟩ := h.named e (Table.mem_of_get? he)
      rw [Table.key_of_get? he] at hname
      obtain ⟨rfl, -⟩ := UUID.uuid5.inj hname
      rcases hns with ⟨n, hn⟩ | hns
      · rw [hreviewId] at hn
        cases hn
      · exact hunused hns
    have hledger : Ledger (fun id => r.reviewed id ∨ id = reviewId) t :=
      ReviewService.verdicts_ledger ((h.mono fun id hid => .inl hid).of_frame hfindings
        (by decide) (by decide)) (.inr rfl) hfindings.id.symm hwellFormed.own
        (hpending.of_frame hfindings (by decide) (by decide))
        (nodup_of_cover hwellFormed.nodup hcover hlength) ht
    obtain ⟨hash, -, hr⟩ := (Reads.ask _).stored_bind hr
    obtain ⟨y, u, hu, hr⟩ := (Silent.stage _).stored_bind hr
    have hu := stage_ok.mp hu
    have hjudged : Frame [.goals, .evidence] s t :=
      Within.frame (Within.forM fun _ _ => ReviewService.judge_within) ht
    have hid : t.run.id = r.run.id := hjudged.id.trans hfindings.id
    obtain ⟨values, hvalues, hadded⟩ := saveReview_stored hid.symm hu
    have hreviewed : ∀ id, r.reviewed id ∨ id = reviewId → u.reviewed id := by
      rintro id (⟨stored, hstored, hin⟩ | rfl)
      · refine ⟨_, hadded, ?_⟩
        rw [hjudged.reviews (by decide), hfindings.reviews (by decide), hstored] at hvalues
        cases hvalues
        simp [hin]
      · exact ⟨_, hadded, by simp⟩
    have hlast : Frame [] u r' := Within.stored (Within.bind (Within.note (quiet_of_apart (by rfl)))
      fun _ => Within.pure _) hr
    refine (((hledger.of_frame (frame_saveReview hu) (by decide) (by decide)).mono
      hreviewed).of_frame hlast (by decide) (by decide)).mono
      fun id hid => ?_
    obtain ⟨stored, hstored, hin⟩ := hid
    exact ⟨stored, (hlast.reviews (by decide)).trans hstored, hin⟩

end Commands

/-! ## Every run -/

section Runs

variable {P : Primitives} {project : Project}

theorem reviewed_of_frame {S : List Part} (h : Frame S r r') (hS : Part.reviews ∉ S)
    (id : UUID) (hid : r.reviewed id) : r'.reviewed id := by
  obtain ⟨stored, hstored, hin⟩ := hid
  exact ⟨stored, (h.reviews hS).trans hstored, hin⟩

/-- A run that has just been made has a balanced ledger. -/
theorem Created.ledger (h : Created P project r) : Ledger r.reviewed r := by
  obtain ⟨request, branch, base, n, now, mode, gates, h⟩ := h
  have hempty : ∀ run : Run, Ledger r.reviewed { run } :=
    fun run => ⟨nofun, nofun, nofun⟩
  rcases h with h | ⟨draft, m, h⟩
  · exact (hempty _).of_frame (Within.stored GoalService.createPending_within h)
      (by decide) (by decide)
  · obtain ⟨s, hs, hframe⟩ := GoalService.create_goal h
    exact ((hempty _).saveGoal hs).of_frame hframe (by decide) (by decide)

/-- Every step keeps the ledger. -/
theorem Step.ledger (h : Ledger r.reviewed r) (hstep : Step P project r r') :
    Ledger r'.reviewed r' := by
  obtain ⟨cmd, hpossible, hstored⟩ := hstep
  have hframe := Command.Leads.frame ⟨hpossible, hstored⟩
  have hmono : .reviews ∉ cmd.parts → Ledger r.reviewed r' → Ledger r'.reviewed r' :=
    fun hS h' => h'.mono (reviewed_of_frame hframe hS)
  cases cmd with
  | defineInitial executionId draft n now =>
    exact hmono (by simp [Command.parts])
      (GoalService.defineInitial_ledger h (stored_quietly.mp hstored))
  | revise draft reason expectedVersion n now =>
    exact hmono (by simp [Command.parts]) (GoalService.revise_ledger h (stored_quietly.mp hstored))
  | startValidation criterionKey key executionId now =>
    exact hmono (by simp [Command.parts])
      (GoalService.startValidation_ledger h (stored_quietly.mp hstored))
  | finishValidation criterion key actorId taskId executionId observation now =>
    have hfresh : r.evidence.has (GoalService.evidenceId criterion.id key) = false := by
      simp only [Command.possible, Records.validating, Bool.decide_and, Bool.and_eq_true,
        decide_eq_true_eq] at hpossible
      exact hpossible.2.1
    exact hmono (by simp [Command.parts])
      (GoalService.finishValidation_ledger h hfresh (stored_quietly.mp hstored))
  | recordReview actorId result key view now =>
    exact ReviewService.record_ledger h (stored_quietly.mp hstored)
  | _ =>
    exact hmono (by simp [Command.parts])
      (h.of_frame hframe (by simp [Command.parts]) (by simp [Command.parts]))

/-- The ledger of every run is balanced. -/
theorem Reachable.ledger (h : Reachable P project r) : Ledger r.reviewed r :=
  h.induction (fun _ => Created.ledger) fun _ _ hledger hstep => Step.ledger hledger hstep

/-- In every state of a run, what a criterion says of its outcome agrees with its evidence: a
criterion that passed refers last to stored evidence of the run about it that passed, one that
failed to such evidence that failed, and its attempts are its references, which are distinct. -/
theorem criterion_agrees_with_evidence (h : Reachable P project r) {contract : GoalContract}
    (hcontract : contract ∈ r.goals) {c : AcceptanceCriterion} (hc : c ∈ contract.criteria) :
    (c.status = .pass → r.attests c true) ∧ (c.status = .fail → r.attests c false) ∧
      c.attemptCount = c.evidenceRefs.length ∧ c.evidenceRefs.Nodup := by
  have hbalanced := h.ledger.balanced contract hcontract c hc
  exact ⟨hbalanced.pass, hbalanced.fail, hbalanced.count, hbalanced.nodup⟩

/-- The criterion of the sample run agrees with its evidence. -/
theorem sample_criterion_agrees :
    (Sample.criterion.status = .pass → Sample.made.attests Sample.criterion true) ∧
      (Sample.criterion.status = .fail → Sample.made.attests Sample.criterion false) ∧
      Sample.criterion.attemptCount = Sample.criterion.evidenceRefs.length ∧
      Sample.criterion.evidenceRefs.Nodup :=
  criterion_agrees_with_evidence Sample.made_reachable
    (Table.mem_of_get? Sample.made_goal) List.mem_cons_self

end Runs

end Orqalis
