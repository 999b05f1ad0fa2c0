import Orqalis.Core.Labor

/-!
# Calls of providers and tools

A provider or a tool is called between two transactions. The first stores that the call is about
to be made and leaves it to one caller; the second stores what came of it. Whatever stops, repeats
or recovers in between, no call is made twice, and no late answer takes the place of the
interruption that a recovery has recorded.
-/

namespace Orqalis

open Lib Lib.Transaction

/-! ## Lists of records -/

/-- Every entry of a list has one of its name in a later list, and stays as it is once it is
closed. -/
def Continued {α : Type} (id : α → UUID) (closed : α → Prop) (l l' : List α) : Prop :=
  ∀ a ∈ l, ∃ b ∈ l', id b = id a ∧ (closed a → b = a)

section Lists

variable {α : Type} {id owner : α → UUID} {closed : α → Prop} {l l' l'' : List α} {a v : α}

theorem Continued.refl (l : List α) : Continued id closed l l :=
  fun a ha => ⟨a, ha, rfl, fun _ => rfl⟩

theorem Continued.trans (h : Continued id closed l l') (h' : Continued id closed l' l'') :
    Continued id closed l l'' := by
  intro a ha
  obtain ⟨b, hb, hid, hsame⟩ := h a ha
  obtain ⟨c, hc, hid', hsame'⟩ := h' b hb
  refine ⟨c, hc, hid'.trans hid, fun hclosed => ?_⟩
  have hba := hsame hclosed
  rw [hba] at hsame'
  exact hsame' hclosed

theorem Continued.mem_ids (h : Continued id closed l l') {i : UUID} (hi : i ∈ l.map id) :
    i ∈ l'.map id := by
  obtain ⟨a, ha, rfl⟩ := List.mem_map.mp hi
  obtain ⟨b, hb, hid, -⟩ := h a ha
  exact List.mem_map.mpr ⟨b, hb, hid⟩

theorem mem_replace_self : v ∈ replace id l v := by
  induction l with
  | nil => exact List.mem_singleton_self v
  | cons a l ih =>
    rw [replace]
    split
    · exact List.mem_cons_self
    · exact List.mem_cons_of_mem _ ih

theorem mem_replace_of_ne (ha : a ∈ l) (hne : id a ≠ id v) : a ∈ replace id l v := by
  induction l with
  | nil => cases ha
  | cons b l ih =>
    rw [replace]
    rcases List.mem_cons.mp ha with rfl | ha
    · rw [if_neg hne]
      exact List.mem_cons_self
    · split
      · exact List.mem_cons_of_mem _ ha
      · exact List.mem_cons_of_mem _ (ih ha)

theorem mem_replace (h : a ∈ replace id l v) : a = v ∨ a ∈ l := by
  induction l with
  | nil => exact .inl (List.mem_singleton.mp h)
  | cons b l ih =>
    rw [replace] at h
    split at h
    · exact (List.mem_cons.mp h).imp_right (List.mem_cons_of_mem b)
    · rcases List.mem_cons.mp h with rfl | h
      · exact .inr List.mem_cons_self
      · exact (ih h).imp_right (List.mem_cons_of_mem b)

/-- An entry that is put in the place of another keeps the names, a new one adds its own. -/
theorem map_replace : (replace id l v).map id =
    if id v ∈ l.map id then l.map id else l.map id ++ [id v] := by
  induction l with
  | nil => rfl
  | cons b l ih =>
    rw [replace]
    by_cases hb : id b = id v
    · simp [hb]
    · rw [if_neg hb, List.map_cons, ih, List.map_cons]
      have hb' : id v ≠ id b := fun h => hb h.symm
      simp only [List.mem_cons, hb', false_or]
      split <;> rfl

/-- An entry may be put in the place of one that is not closed. -/
theorem Continued.replace (h : ∀ b ∈ l, id b = id v → ¬ closed b) :
    Continued id closed l (replace id l v) := by
  intro b hb
  by_cases hid : id b = id v
  · exact ⟨v, mem_replace_self, hid.symm, fun hclosed => absurd hclosed (h b hb hid)⟩
  · exact ⟨b, mem_replace_of_ne hb hid, rfl, fun _ => rfl⟩

/-- Entries of a run stay such with one of them replaced. -/
theorem models_replace {key : String} {runId : UUID} {values : List α}
    (h : models id owner key runId l = .ok values) (hv : owner v = runId) :
    models id owner key runId (Orqalis.replace id values v) =
      .ok (Orqalis.replace id values v) := by
  unfold models at h
  split_ifs at h with hmodels
  cases h
  refine if_pos ⟨?_, fun b hb => ?_⟩
  · rw [map_replace]
    split
    · exact hmodels.1
    · next hnew =>
      refine List.nodup_append.mpr ⟨hmodels.1, List.nodup_singleton _, fun i hi j hj => ?_⟩
      rw [List.mem_singleton.mp hj]
      rintro rfl
      exact hnew hi
  · rcases mem_replace hb with rfl | hb
    · exact hv
    · exact hmodels.2 b hb

/-- An entry of a run is its own, and the only one of its name. -/
theorem models_ok {key : String} {runId : UUID} {values : List α}
    (h : models id owner key runId l = .ok values) :
    (values.map id).Nodup ∧ ∀ b ∈ values, owner b = runId := by
  unfold models at h
  split_ifs at h with hmodels
  cases h
  exact hmodels

/-- Of entries with names of their own, two with one name are one. -/
theorem eq_of_nodup_ids (hnodup : (l.map id).Nodup) {b : α} (ha : a ∈ l) (hb : b ∈ l)
    (hid : id a = id b) : a = b :=
  List.inj_on_of_nodup_map hnodup ha hb hid

end Lists

/-! ## Invocations over time -/

section Services

variable {r r' s : Records} {P : Primitives} {project : Project} {now : Time}

/-- A call of a provider that was interrupted. -/
def ProviderExecution.cut (p : ProviderExecution) : Prop := p.status = .interrupted

/-- A call of a tool that was interrupted. -/
def ToolInvocation.cut (t : ToolInvocation) : Prop := t.status = .interrupted

/-- Later records have the providers' invocations of earlier ones, the interrupted as they were. -/
def ProvidersKept (r r' : Records) : Prop :=
  ∀ values, r.storedProviders = .ok values → ∃ values', r'.storedProviders = .ok values' ∧
    Continued ProviderExecution.id ProviderExecution.cut values values'

/-- Later records have the tools' invocations of earlier ones, the interrupted as they were. -/
def ToolsKept (r r' : Records) : Prop :=
  ∀ values, r.storedTools = .ok values → ∃ values', r'.storedTools = .ok values' ∧
    Continued ToolInvocation.id ToolInvocation.cut values values'

theorem ProvidersKept.of_eq (h : r'.storedProviders = r.storedProviders) : ProvidersKept r r' :=
  fun values hvalues => ⟨values, h.trans hvalues, Continued.refl _⟩

theorem ProvidersKept.trans (h : ProvidersKept r s) (h' : ProvidersKept s r') :
    ProvidersKept r r' := by
  intro values hvalues
  obtain ⟨values₁, hvalues₁, hkept⟩ := h values hvalues
  obtain ⟨values₂, hvalues₂, hkept'⟩ := h' values₁ hvalues₁
  exact ⟨values₂, hvalues₂, hkept.trans hkept'⟩

theorem ToolsKept.of_eq (h : r'.storedTools = r.storedTools) : ToolsKept r r' :=
  fun values hvalues => ⟨values, h.trans hvalues, Continued.refl _⟩

theorem ToolsKept.trans (h : ToolsKept r s) (h' : ToolsKept s r') : ToolsKept r r' := by
  intro values hvalues
  obtain ⟨values₁, hvalues₁, hkept⟩ := h values hvalues
  obtain ⟨values₂, hvalues₂, hkept'⟩ := h' values₁ hvalues₁
  exact ⟨values₂, hvalues₂, hkept.trans hkept'⟩

/-- A stored invocation of a provider takes the place of the one of its name. -/
theorem saveProvider_stored {p : ProviderExecution} (hrun : p.runId = r.run.id)
    (h : r.saveProvider p = .ok r') : ∃ values, r.storedProviders = .ok values ∧
      r'.storedProviders = .ok (replace ProviderExecution.id values p) := by
  unfold Records.saveProvider at h
  obtain ⟨values, hvalues, h⟩ := Outcome.bind_eq_ok.mp h
  split_ifs at h
  cases h
  refine ⟨values, hvalues, ?_⟩
  unfold Records.storedProviders at hvalues
  obtain ⟨d, -, hvalues⟩ := Outcome.bind_eq_ok.mp hvalues
  exact models_replace hvalues hrun

/-- A stored invocation of a tool takes the place of the one of its name. -/
theorem saveTool_stored {t : ToolInvocation} (hrun : t.runId = r.run.id)
    (h : r.saveTool t = .ok r') : ∃ values, r.storedTools = .ok values ∧
      r'.storedTools = .ok (replace ToolInvocation.id values t) := by
  unfold Records.saveTool at h
  obtain ⟨values, hvalues, h⟩ := Outcome.bind_eq_ok.mp h
  split_ifs at h
  obtain ⟨d, -, h⟩ := Outcome.bind_eq_ok.mp h
  cases h
  refine ⟨values, hvalues, ?_⟩
  unfold Records.storedTools at hvalues
  obtain ⟨d, -, hvalues⟩ := Outcome.bind_eq_ok.mp hvalues
  exact models_replace hvalues hrun

theorem storedProviders_ok {values : List ProviderExecution} (h : r.storedProviders = .ok values) :
    (values.map ProviderExecution.id).Nodup ∧ ∀ p ∈ values, p.runId = r.run.id := by
  unfold Records.storedProviders at h
  obtain ⟨d, -, h⟩ := Outcome.bind_eq_ok.mp h
  exact models_ok h

theorem storedTools_ok {values : List ToolInvocation} (h : r.storedTools = .ok values) :
    (values.map ToolInvocation.id).Nodup ∧ ∀ t ∈ values, t.runId = r.run.id := by
  unfold Records.storedTools at h
  obtain ⟨d, -, h⟩ := Outcome.bind_eq_ok.mp h
  exact models_ok h

/-- The listed invocations are the stored ones. -/
theorem providers_listed {values : List ProviderExecution} (h : r.providers = .ok values) :
    ∃ stored, r.storedProviders = .ok stored ∧ values.Perm stored := by
  obtain ⟨stored, hstored, h⟩ := Outcome.bind_eq_ok.mp h
  cases h
  exact ⟨stored, hstored, List.perm_insertionSort _ stored⟩

theorem tools_listed {values : List ToolInvocation} (h : r.tools = .ok values) :
    ∃ stored, r.storedTools = .ok stored ∧ values.Perm stored := by
  obtain ⟨stored, hstored, h⟩ := Outcome.bind_eq_ok.mp h
  cases h
  exact ⟨stored, hstored, List.perm_insertionSort _ stored⟩

/-! ## Interruptions and the log -/

/-- An event of a key stays the event of that key. -/
theorem byKey_of_grown {key : String} {e : Event} (h : r.events <+: r'.events)
    (he : r.byKey key = some e) : r'.byKey key = some e := by
  obtain ⟨l, hl⟩ := h
  unfold Records.byKey at *
  rw [← hl, List.find?_append, he, Option.some_or]

/-- An append answers the event of its key, with the payload of the draft. -/
theorem byKey_append {safe : String → Bool} {d : EventDraft} {e : Event}
    (h : r.append safe d = .ok (e, r')) :
    r'.byKey d.idempotencyKey = some e ∧ e.payload = d.payload := by
  have hpayload := (append_events h).2.2.1
  refine ⟨?_, hpayload⟩
  unfold Records.append at h
  split at h
  · next existing hexisting =>
    split_ifs at h
    cases h
    exact hexisting
  · next hnone =>
    split_ifs at h
    cases h
    show List.find? _ (r.events ++ [r.eventOf d]) = _
    rw [List.find?_append, show r.events.find? _ = none from hnone, Option.none_or]
    exact List.find?_cons_of_pos (decide_eq_true rfl)

/-- The key of the event that ends a tool's invocation. -/
def ToolInvocation.finishKey (t : ToolInvocation) : String := s!"tool:{t.id.text}:finish"

/-- The log tells of every interruption of a tool. -/
def InterruptionsLogged (r : Records) : Prop :=
  ∀ values, r.storedTools = .ok values → ∀ t ∈ values, t.cut →
    ∃ e, r.byKey t.finishKey = some e ∧
      e.payload.status = some InvocationStatus.interrupted.value

/-- Invocations that interrupt none of the tools leave the log complete. -/
theorem InterruptionsLogged.of_stored (h : InterruptionsLogged r)
    (hgrown : r.events <+: r'.events)
    (hstored : ∀ values', r'.storedTools = .ok values' → ∃ values, r.storedTools = .ok values ∧
      ∀ t ∈ values', t.cut → t ∈ values) : InterruptionsLogged r' := by
  intro values' hvalues' t ht hcut
  obtain ⟨values, hvalues, hold⟩ := hstored values' hvalues'
  obtain ⟨e, he, hstatus⟩ := h values hvalues t (hold t ht hcut) hcut
  exact ⟨e, byKey_of_grown hgrown he, hstatus⟩

theorem InterruptionsLogged.of_eq (h : InterruptionsLogged r) (hgrown : r.events <+: r'.events)
    (htools : r'.storedTools = r.storedTools) : InterruptionsLogged r' :=
  h.of_stored hgrown fun values' hvalues' => ⟨values', htools ▸ hvalues', fun _ ht _ => ht⟩

/-! ## Calls of providers -/

/-- The identity of a call. -/
inductive Call
  | provider (id : UUID)
  | tool (id : UUID)
deriving DecidableEq, Repr

/-- Whether the intent of a call is stored. -/
def Records.intends (r : Records) : Call → Prop
  | .provider id => ∃ values, r.storedProviders = .ok values ∧
      id ∈ values.map ProviderExecution.id
  | .tool id => ∃ values, r.storedTools = .ok values ∧ id ∈ values.map ToolInvocation.id

theorem Silent.finish {invocation : ProviderExecution} {outcome : Except String ProviderResult} :
    Silent (AgentExecution.finish P invocation outcome now) :=
  Silent.bind (Silent.read _) fun _ => Silent.bind (Silent.stage _) fun _ => Silent.note _ _ _

/-- The end of an invocation that is under way interrupts no other. -/
theorem AgentExecution.finish_kept {invocation : ProviderExecution}
    {values : List ProviderExecution} {outcome : Except String ProviderResult} {x : Unit}
    (hvalues : r.storedProviders = .ok values) (hmem : invocation ∈ values)
    (hrunning : invocation.status = .running)
    (hr : AgentExecution.finish P invocation outcome now r = .ok (x, r')) :
    ProvidersKept r r' := by
  obtain ⟨hnodup, howner⟩ := storedProviders_ok hvalues
  have hown := howner invocation hmem
  unfold AgentExecution.finish at hr
  rw [show lockedRun = Transaction.read Records.run from rfl, read_bind_ok] at hr
  obtain ⟨s, hs, hr⟩ := stage_bind_ok.mp hr
  have hlast : Frame [] s r' := Within.frame (Within.note (quiet_finish
    s!"provider:{invocation.idempotencyKey}" (by simp [toString]) (by intro h; cases h))) hr
  obtain ⟨stored, hstored, hreplaced⟩ := saveProvider_stored (by exact hown) hs
  cases hvalues.symm.trans hstored
  refine ProvidersKept.trans (s := s) (fun l hl => ?_)
    (.of_eq (hlast.providers (by decide)))
  cases hvalues.symm.trans hl
  refine ⟨_, hreplaced, Continued.replace fun b hb hid hcut => ?_⟩
  have hsame := eq_of_nodup_ids hnodup hb hmem hid
  rw [ProviderExecution.cut, hsame, hrunning] at hcut
  cases hcut

theorem AgentExecution.complete_kept {invocation executionId : UUID}
    {outcome : Except String ProviderResult}
    (hr : stored (AgentExecution.complete P invocation executionId outcome now) r = some r') :
    ProvidersKept r r' := by
  unfold AgentExecution.complete at hr
  rw [show lockedRun = Transaction.read Records.run from rfl, stored_read_bind] at hr
  obtain ⟨providers, hproviders, hr⟩ := (Reads.ask _).stored_bind hr
  obtain ⟨current, hcurrent, hr⟩ := (Reads.found _ _).stored_bind hr
  obtain ⟨x, hrunning, hr⟩ := (Reads.failIf _ _).stored_bind hr
  rw [stored_read_bind] at hr
  obtain ⟨attempt, -, hr⟩ := (Reads.found _ _).stored_bind hr
  obtain ⟨y, hr⟩ := Silent.finish.stored_ok hr
  obtain ⟨values, hvalues, hlisted⟩ := providers_listed (ask_ok.mp hproviders).1
  have hmem := List.mem_of_find?_eq_some (found_ok.mp hcurrent).1
  exact AgentExecution.finish_kept hvalues (hlisted.mem_iff.mp hmem)
    (not_not.mp (failIf_ok.mp hrunning).1) hr

/-- A new invocation is one more invocation. -/
theorem AgentExecution.beginInvocation_stored {run : Run} {attempt : TaskExecution} {task : Task}
    {actor : ActorSession} {key : String} {prepared : AgentExecution.Prepared}
    {invocation : ProviderExecution} (hrun : run.id = r.run.id)
    (hr : AgentExecution.beginInvocation P run attempt task actor key prepared now r =
      .ok (invocation, r')) : invocation.id = AgentExecution.invocationId run.id key ∧
      ∃ values, r.storedProviders = .ok values ∧
        r'.storedProviders = .ok (replace ProviderExecution.id values invocation) := by
  unfold AgentExecution.beginInvocation at hr
  obtain ⟨s, hs, hr⟩ := stage_bind_ok.mp hr
  obtain ⟨values, hvalues, hreplaced⟩ := saveProvider_stored hrun hs
  rw [change_bind_ok] at hr
  obtain ⟨x, t, ht, hr⟩ := bind_ok.mp hr
  obtain ⟨y, u, hu, hr⟩ := bind_ok.mp hr
  obtain ⟨rfl, rfl⟩ := pure_ok.mp hr
  have hskills : Frame [] _ t := Within.frame AgentExecution.announceSkills_within ht
  have hnoted : Frame [] t r' := Within.frame (Within.note (quiet_of_status
    (by simp [settledWords, TaskStatus.value, InvocationStatus.value]) (by simp))) hu
  refine ⟨rfl, values, hvalues, ?_⟩
  rw [hnoted.providers (by decide), hskills.providers (by decide)]
  exact hreplaced

theorem AgentExecution.replay_kept {existing : ProviderExecution} {requestHash : String}
    {values : List ProviderExecution} (hvalues : r.storedProviders = .ok values)
    (hmem : existing ∈ values)
    (hr : stored (AgentExecution.replay P existing requestHash now) r = some r') :
    ProvidersKept r r' := by
  unfold AgentExecution.replay at hr
  obtain ⟨x, -, hr⟩ := (Reads.failIf _ _).stored_bind hr
  split at hr
  · cases hr
    exact .of_eq rfl
  · next hrunning =>
    obtain ⟨x, -, hr⟩ := (Reads.failIf _ _).stored_bind hr
    obtain ⟨x, s, hs, hr⟩ := Silent.finish.stored_bind hr
    cases hr
    exact AgentExecution.finish_kept hvalues hmem hrunning hs
  · cases hr

/-- A repeated call is answered with the stored result of the same request, or denied. -/
theorem AgentExecution.replay_ok {existing : ProviderExecution} {requestHash : String}
    {reply : AgentExecution.Reply}
    (hr : AgentExecution.replay P existing requestHash now r = .ok (reply, r')) :
    existing.requestHash = requestHash ∧ existing.status = .succeeded ∧
      ∃ result, existing.result = some result ∧ reply = .stored result ∧ r' = r := by
  unfold AgentExecution.replay at hr
  obtain ⟨hsame, hr⟩ := failIf_bind_ok.mp hr
  cases hstatus : existing.status with
  | succeeded =>
    cases hresult : existing.result with
    | none =>
      rw [hstatus, hresult] at hr
      cases hr
    | some result =>
      rw [hstatus, hresult] at hr
      obtain ⟨rfl, rfl⟩ := pure_ok.mp hr
      exact ⟨not_not.mp hsame, rfl, result, rfl, rfl, rfl⟩
  | running =>
    rw [hstatus] at hr
    obtain ⟨-, hr⟩ := failIf_bind_ok.mp hr
    obtain ⟨x, s, hs, hr⟩ := bind_ok.mp hr
    exact (commitAndFail_ok.mp hr).elim
  | failed | cancelled | interrupted =>
    rw [hstatus] at hr
    cases hr

/-- What a first transaction of an invocation answers: the stored result of the same request, or
leave to make a call whose intent is new. -/
theorem AgentExecution.start_ok {executionId : UUID} {providerId : String}
    {prepared : Except Error AgentExecution.Prepared} {withTools : Bool} {key : String}
    {reply : AgentExecution.Reply}
    (hr : AgentExecution.start P (some project) executionId providerId prepared withTools key now
      r = .ok (reply, r')) : ∃ values request, r.storedProviders = .ok values ∧
      prepared = .ok request ∧
      ((∃ existing ∈ values, existing.id = AgentExecution.invocationId r.run.id key ∧
          existing.requestHash = request.requestHash ∧ existing.status = .succeeded ∧
          ∃ result, existing.result = some result ∧ reply = .stored result ∧ r' = r) ∨
        ∃ invocation, reply = .begun invocation ∧
          invocation.id = AgentExecution.invocationId r.run.id key ∧
          invocation.id ∉ values.map ProviderExecution.id ∧
          r'.storedProviders = .ok (replace ProviderExecution.id values invocation)) := by
  unfold AgentExecution.start at hr
  obtain ⟨x, -, hr⟩ := (Reads.requireKey key).bind_ok hr
  rw [show lockedRun = Transaction.read Records.run from rfl, read_bind_ok] at hr
  obtain ⟨found, -, hr⟩ := found_bind_ok.mp hr
  obtain ⟨-, hr⟩ := failIf_bind_ok.mp hr
  obtain ⟨contract, -, hr⟩ := (Reads.contractOf _ executionId).bind_ok hr
  obtain ⟨x, -, hr⟩ := (Reads.checkRole _ _ _ withTools).bind_ok hr
  obtain ⟨request, hrequest, hr⟩ := ask_bind_ok.mp hr
  obtain ⟨providers, hproviders, hr⟩ := ask_bind_ok.mp hr
  obtain ⟨values, hvalues, hlisted⟩ := providers_listed hproviders
  refine ⟨values, request, hvalues, hrequest, ?_⟩
  cases hfind : providers.find? fun p => p.id = AgentExecution.invocationId r.run.id key with
  | some existing =>
    rw [hfind] at hr
    obtain ⟨hsame, hsucceeded, result, hresult, hreply, hstored⟩ := AgentExecution.replay_ok hr
    exact .inl ⟨existing, hlisted.mem_iff.mp (List.mem_of_find?_eq_some hfind),
      by simpa using List.find?_some hfind, hsame, hsucceeded, result, hresult, hreply,
      hstored⟩
  | none =>
    rw [hfind] at hr
    obtain ⟨-, hr⟩ := failIf_bind_ok.mp hr
    obtain ⟨invocation, s, hs, hr⟩ := bind_ok.mp hr
    obtain ⟨rfl, rfl⟩ := pure_ok.mp hr
    obtain ⟨hid, stored, hstored, hadded⟩ := AgentExecution.beginInvocation_stored rfl hs
    cases hvalues.symm.trans hstored
    refine .inr ⟨invocation, rfl, hid, fun hin => ?_, hadded⟩
    obtain ⟨old, hold, holdid⟩ := List.mem_map.mp hin
    have hother := List.find?_eq_none.mp hfind old (hlisted.mem_iff.mpr hold)
    exact hother (decide_eq_true (holdid.trans hid))

theorem AgentExecution.start_kept {executionId : UUID} {providerId : String}
    {prepared : Except Error AgentExecution.Prepared} {withTools : Bool} {key : String}
    (hr : stored (AgentExecution.start P (some project) executionId providerId prepared withTools
      key now) r = some r') : ProvidersKept r r' := by
  unfold AgentExecution.start at hr
  obtain ⟨x, -, hr⟩ := (Reads.requireKey key).stored_bind hr
  rw [show lockedRun = Transaction.read Records.run from rfl, stored_read_bind] at hr
  obtain ⟨found, -, hr⟩ := (Reads.found _ _).stored_bind hr
  obtain ⟨x, -, hr⟩ := (Reads.failIf _ _).stored_bind hr
  obtain ⟨contract, -, hr⟩ := (Reads.contractOf _ executionId).stored_bind hr
  obtain ⟨x, -, hr⟩ := (Reads.checkRole _ _ _ withTools).stored_bind hr
  obtain ⟨request, -, hr⟩ := (Reads.ask _).stored_bind hr
  obtain ⟨providers, hproviders, hr⟩ := (Reads.ask _).stored_bind hr
  obtain ⟨values, hvalues, hlisted⟩ := providers_listed (ask_ok.mp hproviders).1
  split at hr
  · next existing hfind =>
    exact AgentExecution.replay_kept hvalues
      (hlisted.mem_iff.mp (List.mem_of_find?_eq_some hfind)) hr
  · next hnone =>
    obtain ⟨x, -, hr⟩ := (Reads.failIf _ _).stored_bind hr
    obtain ⟨invocation, s, hs, hr⟩ := (Silent.beginInvocation _ _ _ _ key _).stored_bind hr
    cases hr
    obtain ⟨hid, stored, hstored, hadded⟩ := AgentExecution.beginInvocation_stored rfl hs
    intro l hl
    cases hl.symm.trans hstored
    cases hl.symm.trans hvalues
    refine ⟨_, hadded, Continued.replace fun old hold holdid => ?_⟩
    have hother := List.find?_eq_none.mp hnone old (hlisted.mem_iff.mpr hold)
    exact absurd (decide_eq_true (holdid.trans hid)) hother

/-! ## Calls of tools -/

/-- The end of an invocation that was interrupted is refused: the log tells of its interruption
already. -/
theorem ToolService.complete_kept {invocation : ToolInvocation} {observation : ToolObservation}
    (hlogged : InterruptionsLogged r) (hrun : invocation.runId = r.run.id)
    (hr : stored (ToolService.complete P invocation observation now) r = some r') :
    ToolsKept r r' ∧ InterruptionsLogged r' := by
  have hgrown := (Within.stored ToolService.complete_within hr).grown
  unfold ToolService.complete at hr
  rw [show lockedRun = Transaction.read Records.run from rfl, stored_read_bind] at hr
  obtain ⟨x, s, hs, hr⟩ := (Silent.stage _).stored_bind hr
  obtain ⟨y, hr⟩ := (Silent.note _ _ _).stored_ok hr
  obtain ⟨e, happend⟩ := note_ok.mp hr
  obtain ⟨hkey, hpayload⟩ := byKey_append happend
  have hlast : Frame [] s r' := Within.frame (Within.note (quiet_finish
    s!"tool:{invocation.id.text}" (by simp [toString]) (by intro h; cases h))) hr
  obtain ⟨values, hvalues, hreplaced⟩ := saveTool_stored (by exact hrun) (stage_ok.mp hs)
  have hstored := (hlast.tools (by decide)).trans hreplaced
  refine ⟨fun l hl => ?_, hlogged.of_stored hgrown fun l hl => ?_⟩
  · cases hvalues.symm.trans hl
    refine ⟨_, hstored, Continued.replace fun t ht hid hcut => ?_⟩
    obtain ⟨old, hold, hstatus⟩ := hlogged values hvalues t ht hcut
    have hfinish : t.finishKey = s!"tool:{invocation.id.text}:finish" := by
      unfold ToolInvocation.finishKey
      rw [show t.id = invocation.id from hid]
    rw [hfinish] at hold
    cases (byKey_of_grown hgrown hold).symm.trans hkey
    rw [hpayload] at hstatus
    by_cases hsucceeded : observation.succeeded = true <;>
      simp [hsucceeded, InvocationStatus.value] at hstatus
  · cases hstored.symm.trans hl
    refine ⟨values, hvalues, fun t ht hcut => ?_⟩
    rcases mem_replace ht with rfl | ht
    · unfold ToolInvocation.cut at hcut
      by_cases hsucceeded : observation.succeeded = true <;> simp [hsucceeded] at hcut
    · exact ht

/-- A new invocation is one more invocation, and under way. -/
theorem ToolService.beginInvocation_stored {run : Run} {provider : ProviderExecution}
    {attempt : TaskExecution} {actor : ActorSession} {call : ProviderToolCall}
    {invocation : ToolInvocation} (hrun : run.id = r.run.id)
    (hr : ToolService.beginInvocation P run provider attempt actor call now r =
      .ok (invocation, r')) : invocation.id = .uuid5 provider.id call.id ∧
      invocation.status = .running ∧ r.events <+: r'.events ∧
      ∃ values, r.storedTools = .ok values ∧
        r'.storedTools = .ok (replace ToolInvocation.id values invocation) := by
  unfold ToolService.beginInvocation at hr
  obtain ⟨s, hs, hr⟩ := stage_bind_ok.mp hr
  obtain ⟨values, hvalues, hreplaced⟩ := saveTool_stored hrun hs
  obtain ⟨x, t, ht, hr⟩ := bind_ok.mp hr
  obtain ⟨rfl, rfl⟩ := pure_ok.mp hr
  have hnoted : Frame [] s r' := Within.frame (Within.note (quiet_of_status
    (by simp [settledWords, TaskStatus.value, InvocationStatus.value]) (by simp))) ht
  exact ⟨rfl, rfl, ((frame_saveTool hs).append hnoted).grown, values, hvalues,
    (hnoted.tools (by decide)).trans hreplaced⟩

/-- A repeated call is answered with the stored observation of the same call, or denied. -/
theorem ToolService.replay_ok {existing : ToolInvocation} {requestHash : String}
    {reply : ToolService.Reply}
    (hr : ToolService.replay existing requestHash r = .ok (reply, r')) :
    existing.requestHash = requestHash ∧ ∃ observation,
      existing.observation = some observation ∧ reply = .stored observation ∧ r' = r := by
  unfold ToolService.replay at hr
  obtain ⟨hsame, hr⟩ := failIf_bind_ok.mp hr
  cases hobservation : existing.observation with
  | none =>
    rw [hobservation] at hr
    cases hr
  | some observation =>
    rw [hobservation] at hr
    obtain ⟨rfl, rfl⟩ := pure_ok.mp hr
    exact ⟨not_not.mp hsame, observation, rfl, rfl, rfl⟩

theorem Reads.checkCall {run : Run} {attempt : TaskExecution} {actor : ActorSession}
    {workspace : RunWorkspace} {call : ProviderToolCall} {permitted : List ToolName} :
    Reads (ToolService.checkCall run attempt actor workspace call permitted) :=
  Reads.bind (Reads.failIf _ _) fun _ => Reads.bind (Reads.failIf _ _) fun _ =>
    Reads.bind (Reads.ask _) fun _ => Reads.failIf _ _

theorem Reads.replay {existing : ToolInvocation} {requestHash : String} :
    Reads (ToolService.replay existing requestHash) := by
  refine Reads.bind (Reads.failIf _ _) fun _ => ?_
  split
  · exact Reads.pure _
  · exact Reads.fail _

theorem Silent.startTool {project : Option Project} {providerInvocationId : UUID}
    {call : ProviderToolCall} {permitted : List ToolName} {verified : Except Error Unit} :
    Silent (ToolService.start P project providerInvocationId call permitted verified now) := by
  refine Silent.bind (Silent.ask _) fun _ => Silent.bind (Silent.found _ _) fun provider =>
    Silent.bind (Silent.read _) fun run => Silent.bind (Silent.failIf _ _) fun _ =>
    Silent.bind (Silent.ask _) fun tools => ?_
  split
  · exact Reads.replay.silent
  · exact Silent.bind (Silent.read _) fun _ => Silent.bind (Silent.found _ _) fun _ =>
      Silent.bind (Silent.found _ _) fun _ => Silent.bind (Silent.ask _) fun _ =>
      Silent.bind (Silent.found _ _) fun _ => Silent.bind (Silent.failIf _ _) fun _ =>
      Silent.bind Reads.checkCall.silent fun _ => Silent.bind (Silent.ask _) fun _ =>
      Silent.bind (Silent.bind (Silent.stage _) fun _ => Silent.bind (Silent.note _ _ _) fun _ =>
        Silent.pure _) fun _ => Silent.pure _

/-- What a first transaction of a call answers: the stored observation of the same call, or leave
to make a call whose intent is new. -/
theorem ToolService.start_ok {providerInvocationId : UUID} {call : ProviderToolCall}
    {permitted : List ToolName} {verified : Except Error Unit} {reply : ToolService.Reply}
    (hr : ToolService.start P (some project) providerInvocationId call permitted verified now r =
      .ok (reply, r')) : ∃ values, r.storedTools = .ok values ∧
      ((∃ existing ∈ values, existing.id = .uuid5 providerInvocationId call.id ∧
          existing.requestHash = P.fingerprintCall call ∧
          ∃ observation, existing.observation = some observation ∧
            reply = .stored observation ∧ r' = r) ∨
        ∃ invocation, reply = .begun invocation ∧
          invocation.id = .uuid5 providerInvocationId call.id ∧ invocation.status = .running ∧
          invocation.id ∉ values.map ToolInvocation.id ∧ r.events <+: r'.events ∧
          r'.storedTools = .ok (replace ToolInvocation.id values invocation)) := by
  unfold ToolService.start at hr
  obtain ⟨providers, -, hr⟩ := ask_bind_ok.mp hr
  obtain ⟨provider, hprovider, hr⟩ := found_bind_ok.mp hr
  have hprovider : provider.id = providerInvocationId := by
    have hmatch := List.find?_some hprovider
    simp only [Bool.decide_and, Bool.and_eq_true, decide_eq_true_eq] at hmatch
    exact hmatch.1
  rw [show lockedRun = Transaction.read Records.run from rfl, read_bind_ok] at hr
  obtain ⟨-, hr⟩ := failIf_bind_ok.mp hr
  obtain ⟨tools, htools, hr⟩ := ask_bind_ok.mp hr
  obtain ⟨values, hvalues, hlisted⟩ := tools_listed htools
  refine ⟨values, hvalues, ?_⟩
  cases hfind : tools.find? fun t => t.id = UUID.uuid5 providerInvocationId call.id with
  | some existing =>
    rw [hfind] at hr
    obtain ⟨hsame, observation, hobservation, hreply, hstored⟩ := ToolService.replay_ok hr
    exact .inl ⟨existing, hlisted.mem_iff.mp (List.mem_of_find?_eq_some hfind),
      by simpa using List.find?_some hfind, hsame, observation, hobservation, hreply, hstored⟩
  | none =>
    rw [hfind] at hr
    rw [read_bind_ok] at hr
    obtain ⟨attempt, -, hr⟩ := found_bind_ok.mp hr
    obtain ⟨actor, -, hr⟩ := found_bind_ok.mp hr
    obtain ⟨workspace, -, hr⟩ := ask_bind_ok.mp hr
    obtain ⟨workspace, -, hr⟩ := found_bind_ok.mp hr
    obtain ⟨-, hr⟩ := failIf_bind_ok.mp hr
    obtain ⟨x, -, hr⟩ := Reads.checkCall.bind_ok hr
    obtain ⟨x, -, hr⟩ := ask_bind_ok.mp hr
    obtain ⟨invocation, s, hs, hr⟩ := bind_ok.mp hr
    obtain ⟨rfl, rfl⟩ := pure_ok.mp hr
    obtain ⟨hid, hrunning, hgrown, stored, hstored, hadded⟩ :=
      ToolService.beginInvocation_stored rfl hs
    rw [hprovider] at hid
    cases hvalues.symm.trans hstored
    refine .inr ⟨invocation, rfl, hid, hrunning, fun hin => ?_, hgrown, hadded⟩
    obtain ⟨old, hold, holdid⟩ := List.mem_map.mp hin
    have hother := List.find?_eq_none.mp hfind old (hlisted.mem_iff.mpr hold)
    exact hother (decide_eq_true (holdid.trans hid))

theorem ToolService.start_kept {providerInvocationId : UUID} {call : ProviderToolCall}
    {permitted : List ToolName} {verified : Except Error Unit} (hlogged : InterruptionsLogged r)
    (hr : stored (ToolService.start P (some project) providerInvocationId call permitted verified
      now) r = some r') : ToolsKept r r' ∧ InterruptionsLogged r' := by
  obtain ⟨reply, hr⟩ := Silent.startTool.stored_ok hr
  obtain ⟨values, hvalues, ⟨existing, -, -, -, observation, -, -, rfl⟩ |
    ⟨invocation, -, hid, hrunning, hnew, hgrown, hadded⟩⟩ := ToolService.start_ok hr
  · exact ⟨.of_eq rfl, hlogged⟩
  · refine ⟨fun l hl => ?_, hlogged.of_stored hgrown fun l hl => ?_⟩
    · cases hvalues.symm.trans hl
      exact ⟨_, hadded, Continued.replace fun old hold holdid =>
        absurd (List.mem_map.mpr ⟨old, hold, holdid⟩) hnew⟩
    · cases hadded.symm.trans hl
      refine ⟨values, hvalues, fun t ht hcut => ?_⟩
      rcases mem_replace ht with rfl | ht
      · rw [ToolInvocation.cut, hrunning] at hcut
        cases hcut
      · exact ht

/-! ## Recovery -/

section Recovery

variable {run : Run} {task : Task} {attempt : TaskExecution} {x : Unit}

theorem RecoveryService.interruptProvider_kept {p : ProviderExecution}
    {values : List ProviderExecution} (hvalues : r.storedProviders = .ok values)
    (hmem : p ∈ values)
    (hr : RecoveryService.interruptProvider P run task attempt now p r = .ok (x, r')) :
    ProvidersKept r r' ∧ ∃ values', r'.storedProviders = .ok values' ∧
      ∀ q ∈ values, q.id ≠ p.id → q ∈ values' := by
  obtain ⟨hnodup, howner⟩ := storedProviders_ok hvalues
  have hown := howner p hmem
  unfold RecoveryService.interruptProvider at hr
  split_ifs at hr with hrunning
  · obtain ⟨s, hs, hr⟩ := stage_bind_ok.mp hr
    have hlast : Frame [] s r' := Within.frame (Within.note (quiet_finish
      s!"provider:{p.idempotencyKey}" (by simp [toString]) (by intro h; cases h))) hr
    obtain ⟨stored, hstored, hreplaced⟩ := saveProvider_stored (by exact hown) hs
    cases hvalues.symm.trans hstored
    have hafter := (hlast.providers (by decide)).trans hreplaced
    refine ⟨fun l hl => ?_, _, hafter, fun q hq hne => mem_replace_of_ne hq hne⟩
    cases hvalues.symm.trans hl
    refine ⟨_, hafter, Continued.replace fun q hq hid hcut => ?_⟩
    have hsame := eq_of_nodup_ids hnodup hq hmem hid
    rw [ProviderExecution.cut, hsame, hrunning.2] at hcut
    cases hcut
  · rw [(pure_ok.mp hr).2]
    exact ⟨.of_eq rfl, values, hvalues, fun q hq _ => hq⟩

/-- A recovery interrupts only what is under way. -/
theorem RecoveryService.interruptProviders_kept {l : List ProviderExecution}
    {values : List ProviderExecution} (hvalues : r.storedProviders = .ok values)
    (hl : ∀ p ∈ l, p ∈ values) (hnodup : (l.map ProviderExecution.id).Nodup)
    (hr : l.forM (RecoveryService.interruptProvider P run task attempt now) r = .ok (x, r')) :
    ProvidersKept r r' := by
  induction l generalizing r values with
  | nil =>
    rw [(pure_ok.mp hr).2]
    exact .of_eq rfl
  | cons p l ih =>
    rw [List.forM_eq_forM, List.forM_cons] at hr
    obtain ⟨y, s, hs, hr⟩ := bind_ok.mp hr
    rw [List.map_cons, List.nodup_cons] at hnodup
    obtain ⟨hfirst, values', hvalues', hothers⟩ :=
      RecoveryService.interruptProvider_kept hvalues (hl p List.mem_cons_self) hs
    refine hfirst.trans (ih hvalues' (fun q hq => ?_) hnodup.2 hr)
    refine hothers q (hl q (List.mem_cons_of_mem p hq)) fun hid => ?_
    exact hnodup.1 (hid ▸ List.mem_map_of_mem hq)

theorem RecoveryService.interruptTool_kept {t : ToolInvocation} {values : List ToolInvocation}
    (hlogged : InterruptionsLogged r) (hvalues : r.storedTools = .ok values) (hmem : t ∈ values)
    (hr : RecoveryService.interruptTool P run task attempt now t r = .ok (x, r')) :
    ToolsKept r r' ∧ InterruptionsLogged r' ∧ ∃ values', r'.storedTools = .ok values' ∧
      ∀ u ∈ values, u.id ≠ t.id → u ∈ values' := by
  obtain ⟨hnodup, howner⟩ := storedTools_ok hvalues
  have hown := howner t hmem
  have hgrown := (Within.frame RecoveryService.interruptTool_within hr).grown
  unfold RecoveryService.interruptTool at hr
  split_ifs at hr with hrunning
  · obtain ⟨s, hs, hr⟩ := stage_bind_ok.mp hr
    have hlast : Frame [] s r' := Within.frame (Within.note (quiet_finish
      s!"tool:{t.id.text}" (by simp [toString]) (by intro h; cases h))) hr
    obtain ⟨stored, hstored, hreplaced⟩ := saveTool_stored (by exact hown) hs
    obtain ⟨e, happend⟩ := note_ok.mp hr
    obtain ⟨hkey, hpayload⟩ := byKey_append happend
    cases hvalues.symm.trans hstored
    have hafter := (hlast.tools (by decide)).trans hreplaced
    refine ⟨fun l hl => ?_, fun l hl u hu hcut => ?_, _, hafter,
      fun u hu hne => mem_replace_of_ne hu hne⟩
    · cases hvalues.symm.trans hl
      refine ⟨_, hafter, Continued.replace fun u hu hid hcut => ?_⟩
      have hsame := eq_of_nodup_ids hnodup hu hmem hid
      rw [ToolInvocation.cut, hsame, hrunning.2] at hcut
      cases hcut
    · cases hafter.symm.trans hl
      rcases mem_replace hu with rfl | hu
      · exact ⟨e, hkey, by rw [hpayload]⟩
      · obtain ⟨old, hold, hstatus⟩ := hlogged values hvalues u hu hcut
        exact ⟨old, byKey_of_grown hgrown hold, hstatus⟩
  · rw [(pure_ok.mp hr).2]
    exact ⟨.of_eq rfl, hlogged, values, hvalues, fun u hu _ => hu⟩

theorem RecoveryService.interruptTools_kept {l : List ToolInvocation}
    {values : List ToolInvocation} (hlogged : InterruptionsLogged r)
    (hvalues : r.storedTools = .ok values) (hl : ∀ t ∈ l, t ∈ values)
    (hnodup : (l.map ToolInvocation.id).Nodup)
    (hr : l.forM (RecoveryService.interruptTool P run task attempt now) r = .ok (x, r')) :
    ToolsKept r r' ∧ InterruptionsLogged r' := by
  induction l generalizing r values with
  | nil =>
    rw [(pure_ok.mp hr).2]
    exact ⟨.of_eq rfl, hlogged⟩
  | cons t l ih =>
    rw [List.forM_eq_forM, List.forM_cons] at hr
    obtain ⟨y, s, hs, hr⟩ := bind_ok.mp hr
    rw [List.map_cons, List.nodup_cons] at hnodup
    obtain ⟨hfirst, hlogged', values', hvalues', hothers⟩ :=
      RecoveryService.interruptTool_kept hlogged hvalues (hl t List.mem_cons_self) hs
    obtain ⟨hrest, hlast⟩ := ih hlogged' hvalues' (fun u hu => hothers u
      (hl u (List.mem_cons_of_mem t hu)) fun hid => hnodup.1 (hid ▸ List.mem_map_of_mem hu))
      hnodup.2 hr
    exact ⟨hfirst.trans hrest, hlast⟩

theorem RecoveryService.retry_kept {executionId : UUID} {reason key : String}
    {acknowledged : Bool} (hlogged : InterruptionsLogged r)
    (hr : stored (RecoveryService.retry P (some project) executionId reason key acknowledged now)
      r = some r') : ProvidersKept r r' ∧ ToolsKept r r' ∧ InterruptionsLogged r' := by
  obtain ⟨x, -, hr⟩ := (Reads.requireKey key).stored_bind hr
  obtain ⟨x, -, hr⟩ := (Reads.failIf _ _).stored_bind hr
  obtain ⟨x, -, hr⟩ := (Reads.failIf _ _).stored_bind hr
  obtain ⟨run, hrun, hr⟩ := Reads.locked.stored_bind hr
  obtain ⟨rfl, -⟩ := read_ok.mp hrun
  rw [stored_read_bind] at hr
  obtain ⟨x, -, hr⟩ := (Reads.failIf _ _).stored_bind hr
  obtain ⟨⟨attempt, task⟩, -, hr⟩ := Reads.recoverable.stored_bind hr
  simp only at hr
  split_ifs at hr
  · rw [(Reads.pure _).stored_eq hr]
    exact ⟨.of_eq rfl, .of_eq rfl, hlogged⟩
  · obtain ⟨x, -, hr⟩ := Reads.checkRetry.stored_bind hr
    obtain ⟨providers, hproviders, hr⟩ := (Reads.ask _).stored_bind hr
    obtain ⟨y, s, hs, hr⟩ := (Silent.forM fun _ _ => Silent.interruptProvider).stored_bind hr
    have hfirst : Frame [.providers] r s :=
      Within.frame (Within.forM fun _ _ => RecoveryService.interruptProvider_within) hs
    obtain ⟨tools, htools, hr⟩ := (Reads.ask _).stored_bind hr
    obtain ⟨z, t, ht, hr⟩ := (Silent.forM fun _ _ => Silent.interruptTool).stored_bind hr
    have hsecond : Frame [.tools] s t :=
      Within.frame (Within.forM fun _ _ => RecoveryService.interruptTool_within) ht
    obtain ⟨values, hvalues, hlisted⟩ := providers_listed (ask_ok.mp hproviders).1
    have hcut := RecoveryService.interruptProviders_kept hvalues
      (fun p hp => hlisted.mem_iff.mp hp)
      ((hlisted.map _).nodup_iff.mpr (storedProviders_ok hvalues).1) hs
    obtain ⟨stored, hstored, hlisted'⟩ := tools_listed (ask_ok.mp htools).1
    obtain ⟨htoolsCut, hlogged'⟩ := RecoveryService.interruptTools_kept
      (hlogged.of_eq hfirst.grown (hfirst.tools (by decide))) hstored
      (fun u hu => hlisted'.mem_iff.mp hu)
      ((hlisted'.map _).nodup_iff.mpr (storedTools_ok hstored).1) ht
    have hid : r.run.id = t.run.id := (hsecond.id.trans hfirst.id).symm
    have hrest : Frame [.executions, .tasks, .workers, .coordinator, .endings] t r' :=
      Within.stored (Within.bind (TaskRuntime.transitionInTransaction_within hid) fun _ =>
        RecoveryService.authorize_within.mono (by decide)) hr
    refine ⟨hcut.trans ((ProvidersKept.of_eq (hsecond.providers (by decide))).trans
      (.of_eq (hrest.providers (by decide)))), ?_, hlogged'.of_eq hrest.grown
      (hrest.tools (by decide))⟩
    exact (ToolsKept.of_eq (hfirst.tools (by decide))).trans
      (htoolsCut.trans (.of_eq (hrest.tools (by decide))))

end Recovery

/-! ## Every run -/

section Runs

variable {cmd : Command}

/-- What a step leaves of the invocations there are. -/
structure CallsKept (r r' : Records) : Prop where
  providers : ProvidersKept r r'
  tools : ToolsKept r r'
  logged : InterruptionsLogged r'

/-- A call that is completed is one of the run. -/
theorem runId_of_calling {invocation : ToolInvocation} (h : r.calling invocation = true) :
    invocation.runId = r.run.id := by
  unfold Records.calling at h
  split at h
  · next tools htools =>
    obtain ⟨t, ht, hsame⟩ := List.any_eq_true.mp h
    rw [← of_decide_eq_true hsame]
    exact (storedTools_ok htools).2 t ht
  · cases h

/-- A step keeps the invocations there are, the interrupted as they were. -/
theorem Command.Leads.callsKept (hlogged : InterruptionsLogged r)
    (hleads : cmd.Leads P project r r') : CallsKept r r' := by
  have hframe := hleads.frame
  obtain ⟨hpossible, hstored⟩ := hleads
  have hproviders : Part.providers ∉ cmd.parts → ProvidersKept r r' :=
    fun h => .of_eq (hframe.providers h)
  have htools : Part.tools ∉ cmd.parts → ToolsKept r r' ∧ InterruptionsLogged r' :=
    fun h => ⟨.of_eq (hframe.tools h), hlogged.of_eq hframe.grown (hframe.tools h)⟩
  cases cmd with
  | startInvocation executionId providerId prepared withTools key now =>
    obtain ⟨hkept, hlogged'⟩ := htools (by simp [Command.parts])
    exact ⟨AgentExecution.start_kept (stored_quietly.mp hstored), hkept, hlogged'⟩
  | completeInvocation invocation executionId outcome now =>
    obtain ⟨hkept, hlogged'⟩ := htools (by simp [Command.parts])
    exact ⟨AgentExecution.complete_kept hstored, hkept, hlogged'⟩
  | startTool provider call permitted verified now =>
    obtain ⟨hkept, hlogged'⟩ := ToolService.start_kept hlogged (stored_quietly.mp hstored)
    exact ⟨hproviders (by simp [Command.parts]), hkept, hlogged'⟩
  | completeTool invocation observation now =>
    obtain ⟨hkept, hlogged'⟩ := ToolService.complete_kept hlogged
      (runId_of_calling hpossible) hstored
    exact ⟨hproviders (by simp [Command.parts]), hkept, hlogged'⟩
  | retry executionId reason key acknowledged now =>
    obtain ⟨hkept, htoolsKept, hlogged'⟩ :=
      RecoveryService.retry_kept hlogged (stored_quietly.mp hstored)
    exact ⟨hkept, htoolsKept, hlogged'⟩
  | _ =>
    obtain ⟨hkept, hlogged'⟩ := htools (by simp [Command.parts])
    exact ⟨hproviders (by simp [Command.parts]), hkept, hlogged'⟩

theorem CallsKept.intends (h : CallsKept r r') {c : Call} (hc : r.intends c) : r'.intends c := by
  cases c with
  | provider id =>
    obtain ⟨values, hvalues, hid⟩ := hc
    obtain ⟨values', hvalues', hkept⟩ := h.providers values hvalues
    exact ⟨values', hvalues', hkept.mem_ids hid⟩
  | tool id =>
    obtain ⟨values, hvalues, hid⟩ := hc
    obtain ⟨values', hvalues', hkept⟩ := h.tools values hvalues
    exact ⟨values', hvalues', hkept.mem_ids hid⟩

/-- The call a command leaves to its caller. -/
def Command.begins (P : Primitives) (project : Project) (r : Records) : Command → Option Call
  | .startInvocation executionId providerId prepared withTools key now =>
    match AgentExecution.start P (some project) executionId providerId prepared withTools key now
        r with
    | .ok (.begun invocation, _) => some (.provider invocation.id)
    | _ => none
  | .startTool provider call permitted verified now =>
    match ToolService.start P (some project) provider call permitted verified now r with
    | .ok (.begun invocation, _) => some (.tool invocation.id)
    | _ => none
  | _ => none

/-- A call is left to a caller where its intent was not stored, and is stored with it. -/
theorem Command.Leads.begins (hleads : cmd.Leads P project r r') {c : Call}
    (h : cmd.begins P project r = some c) : ¬ r.intends c ∧ r'.intends c := by
  obtain ⟨-, hstored⟩ := hleads
  unfold Command.begins at h
  split at h
  · split at h
    · next invocation s hstart =>
      cases h
      have hsame := stored_of_ok hstart
      cases hsame.symm.trans (stored_quietly.mp hstored)
      obtain ⟨values, request, hvalues, -, ⟨existing, -, -, -, -, result, -, hreply, -⟩ |
        ⟨begun, hreply, -, hnew, hadded⟩⟩ := AgentExecution.start_ok hstart
      · cases hreply
      · cases hreply
        refine ⟨?_, _, hadded, List.mem_map.mpr ⟨_, mem_replace_self, rfl⟩⟩
        rintro ⟨l, hl, hin⟩
        cases hvalues.symm.trans hl
        exact hnew hin
    · cases h
  · split at h
    · next invocation s hstart =>
      cases h
      have hsame := stored_of_ok hstart
      cases hsame.symm.trans (stored_quietly.mp hstored)
      obtain ⟨values, hvalues, ⟨existing, -, -, -, observation, -, hreply, -⟩ |
        ⟨begun, hreply, -, -, hnew, -, hadded⟩⟩ := ToolService.start_ok hstart
      · cases hreply
      · cases hreply
        refine ⟨?_, _, hadded, List.mem_map.mpr ⟨_, mem_replace_self, rfl⟩⟩
        rintro ⟨l, hl, hin⟩
        cases hvalues.symm.trans hl
        exact hnew hin
    · cases h
  · cases h

/-! ### Callers -/

/-- A run with its callers: the calls that are left to them, and the calls they have made. -/
structure Scene where
  records : Records
  leave : List Call := []
  calls : List Call := []

/-- What happens next: a command, a call by the one it is left to, or the stop of this caller. -/
inductive Move
  | command (cmd : Command)
  | call (c : Call)
  | stop (c : Call)

/-- The scene after a move, if the move can be made. -/
def Move.next (P : Primitives) (project : Project) (w : Scene) : Move → Option Scene
  | .command cmd =>
    if cmd.possible w.records then
      (stored (cmd.perform P project) w.records).map fun r =>
        { w with records := r, leave := (cmd.begins P project w.records).toList ++ w.leave }
    else
      none
  | .call c =>
    if c ∈ w.leave then some { w with leave := w.leave.erase c, calls := c :: w.calls } else none
  | .stop c => some { w with leave := w.leave.erase c }

/-- A step of a scene. -/
def SceneStep (P : Primitives) (project : Project) (w w' : Scene) : Prop :=
  ∃ move : Move, move.next P project w = some w'

/-- What holds of every scene: a call that is left to a caller or made has its intent stored, and
is there once. -/
structure Once (w : Scene) : Prop where
  nodup : (w.leave ++ w.calls).Nodup
  intended : ∀ c ∈ w.leave ++ w.calls, w.records.intends c
  logged : InterruptionsLogged w.records

theorem Once.step {w w' : Scene} (h : Once w) (hstep : SceneStep P project w w') :
    Once w' ∧ CallsKept w.records w'.records := by
  have hsame : CallsKept w.records w.records := ⟨.of_eq rfl, .of_eq rfl, h.logged⟩
  obtain ⟨move, hmove⟩ := hstep
  cases move with
  | command cmd =>
    rw [Move.next] at hmove
    split_ifs at hmove with hpossible
    obtain ⟨r', hr', rfl⟩ := Option.map_eq_some_iff.mp hmove
    have hleads : cmd.Leads P project w.records r' := ⟨hpossible, hr'⟩
    have hkept := hleads.callsKept h.logged
    refine ⟨?_, hkept⟩
    cases hbegins : cmd.begins P project w.records with
    | none => exact ⟨h.nodup, fun c hc => hkept.intends (h.intended c hc), hkept.logged⟩
    | some c =>
      obtain ⟨hnew, hstored⟩ := hleads.begins hbegins
      refine ⟨List.nodup_cons.mpr ⟨fun hc => hnew (h.intended c hc), h.nodup⟩, ?_, hkept.logged⟩
      intro d hd
      rcases List.mem_cons.mp hd with rfl | hd
      · exact hstored
      · exact hkept.intends (h.intended d hd)
  | call c =>
    rw [Move.next] at hmove
    split_ifs at hmove with hc
    cases hmove
    have hperm : (w.leave.erase c ++ c :: w.calls).Perm (w.leave ++ w.calls) :=
      List.perm_middle.trans ((List.perm_cons_erase hc).symm.append_right w.calls)
    exact ⟨⟨hperm.nodup_iff.mpr h.nodup, fun d hd => h.intended d (hperm.mem_iff.mp hd),
      h.logged⟩, hsame⟩
  | stop c =>
    cases hmove
    have hsub : (w.leave.erase c ++ w.calls).Sublist (w.leave ++ w.calls) :=
      List.erase_sublist.append_right w.calls
    exact ⟨⟨h.nodup.sublist hsub, fun d hd => h.intended d (hsub.subset hd), h.logged⟩, hsame⟩

/-- Every scene a run with its callers comes to. -/
theorem Once.run {w w' : Scene} (h : Once w)
    (hrun : Relation.ReflTransGen (SceneStep P project) w w') :
    Once w' ∧ CallsKept w.records w'.records := by
  induction hrun with
  | refl => exact ⟨h, .of_eq rfl, .of_eq rfl, h.logged⟩
  | tail hbefore hstep ih =>
    obtain ⟨honce, hkept⟩ := ih
    obtain ⟨honce', hkept'⟩ := honce.step hstep
    exact ⟨honce', hkept.providers.trans hkept'.providers, hkept.tools.trans hkept'.tools,
      hkept'.logged⟩

/-- A run that has just been made has made no call. -/
theorem Created.storedCalls (h : Created P project r) :
    r.storedProviders = .ok [] ∧ r.storedTools = .ok [] := by
  obtain ⟨request, branch, base, n, now, hframe⟩ := h.frame
  exact ⟨hframe.providers (by decide), hframe.tools (by decide)⟩

theorem Created.once (h : Created P project r) : Once ⟨r, [], []⟩ := by
  refine ⟨List.nodup_nil, fun c hc => ?_, fun values hvalues t ht => ?_⟩
  · cases hc
  · cases h.storedCalls.2.symm.trans hvalues
    cases ht

/-- Repeated calls are answered with what is stored for the same request, or denied. -/
structure Replays (P : Primitives) (project : Project) (r : Records)
    (providers : List ProviderExecution) (tools : List ToolInvocation) : Prop where
  provider : ∀ existing ∈ providers, ∀ executionId providerId prepared withTools key now reply s,
    existing.id = AgentExecution.invocationId r.run.id key →
    AgentExecution.start P (some project) executionId providerId prepared withTools key now r =
      .ok (reply, s) →
    s = r ∧ ∃ request result, prepared = .ok request ∧
      request.requestHash = existing.requestHash ∧ existing.result = some result ∧
      reply = .stored result
  tool : ∀ existing ∈ tools, ∀ providerInvocationId call permitted verified now reply s,
    existing.id = .uuid5 providerInvocationId call.id →
    ToolService.start P (some project) providerInvocationId call permitted verified now r =
      .ok (reply, s) →
    s = r ∧ P.fingerprintCall call = existing.requestHash ∧
      ∃ observation, existing.observation = some observation ∧ reply = .stored observation

theorem replays_of_stored {providers : List ProviderExecution} {tools : List ToolInvocation}
    (hproviders : r.storedProviders = .ok providers) (htools : r.storedTools = .ok tools) :
    Replays P project r providers tools where
  provider := by
    intro existing hmem executionId providerId prepared withTools key now reply s hid hs
    obtain ⟨stored, request, hstored, hprepared, ⟨old, hold, holdid, hsame, -, result, hresult,
      hreply, rfl⟩ | ⟨invocation, -, hnew, hfresh, -⟩⟩ := AgentExecution.start_ok hs
    · cases hproviders.symm.trans hstored
      cases eq_of_nodup_ids (storedProviders_ok hproviders).1 hold hmem (holdid.trans hid.symm)
      exact ⟨rfl, request, result, hprepared, hsame.symm, hresult, hreply⟩
    · cases hproviders.symm.trans hstored
      exact absurd (List.mem_map.mpr ⟨existing, hmem, hid.trans hnew.symm⟩) hfresh
  tool := by
    intro existing hmem providerInvocationId call permitted verified now reply s hid hs
    obtain ⟨stored, hstored, ⟨old, hold, holdid, hsame, observation, hobservation, hreply, rfl⟩ |
      ⟨invocation, -, hnew, -, hfresh, -⟩⟩ := ToolService.start_ok hs
    · cases htools.symm.trans hstored
      cases eq_of_nodup_ids (storedTools_ok htools).1 hold hmem (holdid.trans hid.symm)
      exact ⟨rfl, hsame.symm, observation, hobservation, hreply⟩
    · cases htools.symm.trans hstored
      exact absurd (List.mem_map.mpr ⟨existing, hmem, hid.trans hnew.symm⟩) hfresh

/-- Whatever a run and its callers do, no call of a provider or a tool is made twice; a repeated
one is answered with what is stored for the same request, or denied; and an interrupted
invocation stays as it is. -/
theorem calls_at_most_once {w : Scene} (hcreated : Created P project r)
    (hrun : Relation.ReflTransGen (SceneStep P project) ⟨r, [], []⟩ w) :
    w.calls.Nodup ∧ ∃ providers tools, w.records.storedProviders = .ok providers ∧
      w.records.storedTools = .ok tools ∧ Replays P project w.records providers tools ∧
      ∀ w', Relation.ReflTransGen (SceneStep P project) w w' →
        ∃ providers' tools', w'.records.storedProviders = .ok providers' ∧
          w'.records.storedTools = .ok tools' ∧
          (∀ p ∈ providers, p.status = .interrupted → p ∈ providers') ∧
          ∀ t ∈ tools, t.status = .interrupted → t ∈ tools' := by
  obtain ⟨hproviders, htools⟩ := hcreated.storedCalls
  obtain ⟨honce, hkept⟩ := hcreated.once.run hrun
  obtain ⟨providers, hproviders, -⟩ := hkept.providers _ hproviders
  obtain ⟨tools, htools, -⟩ := hkept.tools _ htools
  refine ⟨(List.nodup_append.mp honce.nodup).2.1, providers, tools, hproviders, htools,
    replays_of_stored hproviders htools, fun w' hlater => ?_⟩
  obtain ⟨-, hafter⟩ := honce.run hlater
  obtain ⟨providers', hproviders', hcontinued⟩ := hafter.providers _ hproviders
  obtain ⟨tools', htools', hcontinuedTools⟩ := hafter.tools _ htools
  refine ⟨providers', tools', hproviders', htools', fun p hp hcut => ?_, fun t ht hcut => ?_⟩
  · obtain ⟨q, hq, -, hsame⟩ := hcontinued p hp
    rw [← hsame hcut]
    exact hq
  · obtain ⟨u, hu, -, hsame⟩ := hcontinuedTools t ht
    rw [← hsame hcut]
    exact hu

/-- Make some moves one after the other. -/
def play (P : Primitives) (project : Project) : List Move → Scene → Option Scene
  | [], w => some w
  | move :: rest, w => (move.next P project w).bind (play P project rest)

theorem run_of_play {moves : List Move} {w w' : Scene} (h : play P project moves w = some w') :
    Relation.ReflTransGen (SceneStep P project) w w' := by
  induction moves generalizing w with
  | nil =>
    cases h
    exact .refl
  | cons move rest ih =>
    obtain ⟨s, hs, h⟩ := Option.bind_eq_some_iff.mp h
    exact .head ⟨move, hs⟩ (ih h)

end Runs

end Services

/-! ### A call to look at -/

namespace Sample

/-- The invocation of a provider in the attempt of the sample run. -/
def invocation : UUID := AgentExecution.invocationId (.uuid4 1) "call"

/-- The work at the task up to the call of a provider; a call that is stopped is not made. -/
def calling : List Move :=
  beginning.map Move.command ++
    [.command (.startInvocation (.uuid5 (.uuid4 1) "start:attempt") "auto"
        (.ok { provider := "p", model := "m", requestHash := digest, timeout := 100 }) true
        "call" 8),
      .call (.provider invocation), .stop (.provider invocation)]

theorem calling_calls : ((play primitives project calling ⟨made, [], []⟩).any fun w =>
    w.calls = [.provider invocation]) = true := by decide +kernel

end Sample

theorem sample_calls_at_most_once : ∃ w,
    play Sample.primitives Sample.project Sample.calling ⟨Sample.made, [], []⟩ = some w ∧
      w.calls = [.provider Sample.invocation] ∧ w.calls.Nodup ∧ ∃ providers tools,
      w.records.storedProviders = .ok providers ∧ w.records.storedTools = .ok tools ∧
      Replays Sample.primitives Sample.project w.records providers tools ∧
      ∀ w', Relation.ReflTransGen (SceneStep Sample.primitives Sample.project) w w' →
        ∃ providers' tools', w'.records.storedProviders = .ok providers' ∧
          w'.records.storedTools = .ok tools' ∧
          (∀ p ∈ providers, p.status = .interrupted → p ∈ providers') ∧
          ∀ t ∈ tools, t.status = .interrupted → t ∈ tools' := by
  obtain ⟨w, hw, hcalls⟩ := Option.any_eq_true _ _ |>.mp Sample.calling_calls
  exact ⟨w, hw, of_decide_eq_true hcalls, calls_at_most_once Sample.made_created (run_of_play hw)⟩

end Orqalis
