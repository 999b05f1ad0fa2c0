import Mathlib.Tactic.TypeStar

/-!
# Boards of items that wait for each other

A board says of every item what it needs, whether it is done, whether it is live (released or
begun) and whether it waits. Two things make it right: what is live needs nothing that is not
done, and what waits needs something that is not done. The first can be broken by a release or
by new needs only, the second by a completion or by new items, and a refresh that releases
exactly what waits for nothing more restores it.
-/

namespace Lib.Readiness

/-- What is known of items that wait for each other. -/
structure Board (α : Type*) where
  needs : α → α → Prop
  done : α → Prop
  live : α → Prop
  waiting : α → Prop

namespace Board

variable {α : Type*} {b c d : Board α}

/-- Everything an item needs is done. -/
def cleared (b : Board α) (a : α) : Prop := ∀ q, b.needs a q → b.done q

/-- What is live needs nothing that is not done. -/
def Ordered (b : Board α) : Prop := ∀ a, b.live a → b.cleared a

/-- What waits needs something that is not done. -/
def Prompt (b : Board α) : Prop := ∀ a, b.waiting a → ¬ b.cleared a

/-! ## Work on a board -/

/-- Items are worked on: needs stay, what is done stays done, what is live was live, and what
waits waited. -/
structure Works (b c : Board α) : Prop where
  needs : ∀ a q, c.needs a q ↔ b.needs a q
  done : ∀ a, b.done a → c.done a
  live : ∀ a, c.live a → b.live a
  waiting : ∀ a, c.waiting a → b.waiting a

/-- Items are worked on and none is completed. -/
structure Rests (b c : Board α) : Prop extends Works b c where
  undone : ∀ a, c.done a → b.done a

theorem Works.cleared (h : Works b c) {a : α} (ha : b.cleared a) : c.cleared a := by
  intro q hq
  exact h.done q (ha q ((h.needs a q).mp hq))

theorem Rests.cleared_iff (h : Rests b c) {a : α} : c.cleared a ↔ b.cleared a := by
  refine ⟨fun ha q hq => ?_, h.toWorks.cleared⟩
  exact h.undone q (ha q ((h.needs a q).mpr hq))

theorem Ordered.works (hb : b.Ordered) (h : Works b c) : c.Ordered := by
  intro a ha
  exact h.cleared (hb a (h.live a ha))

/-- Work that completes nothing leaves what waits where it is. -/
theorem Prompt.rests (hb : b.Prompt) (h : Rests b c) : c.Prompt := by
  intro a ha hcleared
  exact hb a (h.waiting a ha) (h.cleared_iff.mp hcleared)

/-! ## Releases -/

/-- Items are released: nothing but that an item that needs nothing more comes to live. -/
structure Releases (b c : Board α) : Prop where
  needs : ∀ a q, c.needs a q ↔ b.needs a q
  done : ∀ a, c.done a ↔ b.done a
  live : ∀ a, c.live a → b.live a ∨ b.cleared a
  waiting : ∀ a, c.waiting a → b.waiting a

theorem Releases.refl (b : Board α) : Releases b b :=
  ⟨fun _ _ => Iff.rfl, fun _ => Iff.rfl, fun _ h => .inl h, fun _ h => h⟩

theorem Releases.cleared_iff (h : Releases b c) {a : α} : c.cleared a ↔ b.cleared a := by
  unfold cleared
  simp only [h.needs, h.done]

theorem Releases.trans (h : Releases b c) (h' : Releases c d) : Releases b d where
  needs a q := (h'.needs a q).trans (h.needs a q)
  done a := (h'.done a).trans (h.done a)
  live a hlive := by
    rcases h'.live a hlive with hlive | hcleared
    · exact h.live a hlive
    · exact .inr (h.cleared_iff.mp hcleared)
  waiting a hwaiting := h.waiting a (h'.waiting a hwaiting)

theorem Ordered.releases (hb : b.Ordered) (h : Releases b c) : c.Ordered := by
  intro a ha
  exact h.cleared_iff.mpr ((h.live a ha).elim (hb a) id)

theorem Prompt.releases (hb : b.Prompt) (h : Releases b c) : c.Prompt := by
  intro a ha hcleared
  exact hb a (h.waiting a ha) (h.cleared_iff.mp hcleared)

/-- A refresh releases all that needs nothing more. -/
structure Refreshes (b c : Board α) : Prop extends Releases b c where
  all : ∀ a, c.waiting a → ¬ b.cleared a

theorem Refreshes.prompt (h : Refreshes b c) : c.Prompt := by
  intro a ha hcleared
  exact h.all a ha (h.cleared_iff.mp hcleared)

/-! ## New needs -/

/-- Needs are replaced: what is live was live and has no new needs, or it has none at all. -/
structure Replaces (b c : Board α) : Prop where
  done : ∀ a, b.done a → c.done a
  live : ∀ a, c.live a → (b.live a ∧ ∀ q, c.needs a q → b.needs a q) ∨ ∀ q, ¬ c.needs a q

theorem Ordered.replaces (hb : b.Ordered) (h : Replaces b c) : c.Ordered := by
  intro a ha q hq
  rcases h.live a ha with ⟨hlive, hneeds⟩ | hnone
  · exact h.done q (hb a hlive q (hneeds q hq))
  · exact absurd hq (hnone q)

end Board

end Lib.Readiness
