import Mathlib.Order.Defs.Unbundled
import Orqalis.Core.Frame

/-!
# Effects of a kind

What every transaction does to some part of the records, said along its text: a preorder on
records holds between what a transaction finds and what it stores if it holds of its parts.
-/

namespace Orqalis

open Lib Lib.Transaction

/-- A transaction whose effect on the records of the run `id` is of a kind. -/
def Effects (R : Records → Records → Prop) (id : UUID) {α : Type} (m : RunTx α) : Prop :=
  ∀ r r', r.run.id = id → stored m r = some r' → r'.run.id = id ∧ R r r'

namespace Effects

variable {R : Records → Records → Prop} [IsPreorder Records R] {id : UUID} {α β : Type}
  {m : RunTx α} {f : α → RunTx β}

omit [IsPreorder Records R] in
theorem ok {r r' : Records} {a : α} (h : Effects R r.run.id m) (hr : m r = .ok (a, r')) :
    R r r' :=
  (h r r' rfl (stored_of_ok hr)).2

omit [IsPreorder Records R] in
theorem of_within {S : List Part} (h : Within id S m) (hR : ∀ r r', Frame S r r' → R r r') :
    Effects R id m := by
  intro r r' hid hr
  have hframe := h r r' hid hr
  exact ⟨hframe.id.trans hid, hR r r' hframe⟩

theorem of_reads (h : Reads m) : Effects R id m := by
  intro r r' hid hr
  rw [h.stored_eq hr]
  exact ⟨hid, refl_of R r⟩

theorem bind (hm : Effects R id m) (hf : ∀ a, Effects R id (f a)) : Effects R id (m >>= f) := by
  intro r r' hid hr
  rcases stored_bind.mp hr with ⟨a, s, hs, hr⟩ | ⟨e, he, hcommitted⟩
  · obtain ⟨hids, hfirst⟩ := hm r s hid (stored_of_ok hs)
    obtain ⟨hid', hrest⟩ := hf a s r' hids hr
    exact ⟨hid', trans_of R hfirst hrest⟩
  · exact hm r r' hid (stored_of_error he hcommitted)

omit [IsPreorder Records R] in
theorem ite {c : Prop} [Decidable c] {m m' : RunTx α} (h : Effects R id m)
    (h' : Effects R id m') : Effects R id (if c then m else m') := by
  split
  · exact h
  · exact h'

theorem forM {l : List α} {f : α → RunTx Unit} (hf : ∀ a ∈ l, Effects R id (f a)) :
    Effects R id (l.forM f) := by
  induction l with
  | nil => exact of_reads (Reads.pure ())
  | cons a l ih =>
    rw [List.forM_eq_forM, List.forM_cons]
    exact bind (hf a List.mem_cons_self) fun _ =>
      ih fun b hb => hf b (List.mem_cons_of_mem a hb)

omit [IsPreorder Records R] in
/-- A run that is read is the run the transaction is about. -/
theorem locked {f : Run → RunTx α} (hf : ∀ run, run.id = id → Effects R id (f run)) :
    Effects R id (lockedRun >>= f) := by
  intro r r' hid hr
  rw [show lockedRun = Transaction.read Records.run from rfl, stored_read_bind] at hr
  exact hf r.run hid r r' hid hr

omit [IsPreorder Records R] in
theorem lockedOf {runId : UUID} {f : Run → RunTx α}
    (hf : ∀ run, run.id = id → Effects R id (f run)) :
    Effects R id (lockedRunOf runId >>= f) := by
  intro r r' hid hr
  obtain ⟨run, hrun, hr⟩ := (Reads.lockedRunOf _).stored_bind hr
  obtain ⟨rfl, -, -⟩ := lockedRunOf_ok.mp hrun
  exact hf r.run hid r r' hid hr

omit [IsPreorder Records R] in
theorem staged {f : Records → Except Error Records}
    (hf : ∀ r r', f r = .ok r' → r'.run.id = r.run.id ∧ R r r') :
    Effects R id (stage f) := by
  intro r r' hid hr
  obtain ⟨x, hr⟩ := (Silent.stage _).stored_ok hr
  obtain ⟨hsame, h⟩ := hf r r' (stage_ok.mp hr)
  exact ⟨hsame.trans hid, h⟩

omit [IsPreorder Records R] in
theorem quietly (h : Effects R id m) : Effects R id (quietly m) :=
  fun r r' hid hr => h r r' hid (stored_quietly.mp hr)

end Effects

end Orqalis
