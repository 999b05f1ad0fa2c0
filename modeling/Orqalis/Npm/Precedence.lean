import Orqalis.Lib.SemVer
import Orqalis.Npm.Versions

/-!
# The comparison is the precedence of versions

A text that the pattern takes is read as a version: its numbers by their values, the identifiers
of its pre-release as numbers where they are digits alone. The comparison of two texts answers
which version precedes, as long as the numbers are exact as JavaScript numbers
(`compareVersions_decides`).
-/

namespace Orqalis

open Lib.SemVer

namespace Npm

/-! ## Versions -/

/-- An identifier of a pre-release. -/
def identifier (part : List Char) : Identifier :=
  if isNumeric part then .numeric (digitsValue part) else .alphanumeric part

/-- The identifiers of a pre-release; a release has none. -/
def identifiers : Option (List Char) → List Identifier
  | none => []
  | some s => (s.splitOn '.').map identifier

/-- The version that some parts stand for. -/
def Parts.version (p : Parts) : Version where
  major := digitsValue p.major
  minor := digitsValue p.minor
  patch := digitsValue p.patch
  preRelease := identifiers p.preRelease
  build := p.build

/-- A text is read as a version. -/
def Reads (s : List Char) (v : Version) : Prop :=
  ∃ p : Parts, p.WellFormed ∧ p.text = s ∧ p.version = v

/-- A number that is a JavaScript number. -/
def Exact (n : Nat) : Prop := toDouble n = some n

/-- The numbers of a version are JavaScript numbers. -/
structure ExactNumbers (v : Version) : Prop where
  core : ∀ n ∈ v.core, Exact n
  preRelease : ∀ n, .numeric n ∈ v.preRelease → Exact n

theorem exact_of_lt {n : Nat} (h : n < 2 ^ 53) : Exact n := if_pos h

/-! ## Answers -/

/-- A sign says which of three cases there is. -/
inductive Decides (before same after : Prop) : Sign → Prop
  | negative (h : before) : Decides before same after .negative
  | zero (h : same) : Decides before same after .zero
  | positive (h : after) : Decides before same after .positive

variable {before same after before' same' after' : Prop} {sign : Sign}

theorem Decides.imp (h : Decides before same after sign) (hbefore : before → before')
    (hsame : same → same') (hafter : after → after') : Decides before' same' after' sign := by
  cases h with
  | negative h => exact .negative (hbefore h)
  | zero h => exact .zero (hsame h)
  | positive h => exact .positive (hafter h)

/-- The first difference decides; without one the rest does. -/
theorem Decides.next (h : Decides before same after sign) {rest : Sign}
    (hbefore : before → before') (hafter : after → after')
    (hsame : same → Decides before' same' after' rest) :
    Decides before' same' after' (if sign ≠ .zero then sign else rest) := by
  cases h with
  | negative h => exact .negative (hbefore h)
  | zero h => exact hsame h
  | positive h => exact .positive (hafter h)

theorem signOfDifference_decides {m n : Nat} (hm : Exact m) (hn : Exact n) :
    Decides (m < n) (m = n) (n < m) (signOfDifference (toDouble m) (toDouble n)) := by
  unfold Exact at hm hn
  rw [hm, hn]
  simp only [signOfDifference]
  rcases Nat.lt_trichotomy m n with h | rfl | h
  · rw [if_pos h]
    exact .negative h
  · rw [if_neg (Nat.lt_irrefl m), if_pos rfl]
    exact .zero rfl
  · rw [if_neg (Nat.lt_asymm h), if_neg (Nat.ne_of_gt h)]
    exact .positive h

/-! ## The loops -/

/-- The loop over the numbers finds which list comes first. -/
theorem compareNumbers_decides {as bs : List (List Char)} (hlength : as.length = bs.length)
    (ha : ∀ a ∈ as, Exact (digitsValue a)) (hb : ∀ b ∈ bs, Exact (digitsValue b)) :
    Decides (List.Lex (· < ·) (as.map digitsValue) (bs.map digitsValue))
      (as.map digitsValue = bs.map digitsValue)
      (List.Lex (· < ·) (bs.map digitsValue) (as.map digitsValue)) (compareNumbers as bs) := by
  induction as generalizing bs with
  | nil =>
    cases bs with
    | nil => exact .zero rfl
    | cons b bs => cases hlength
  | cons a as ih =>
    cases bs with
    | nil => cases hlength
    | cons b bs =>
      obtain ⟨hfirst, ha⟩ := List.forall_mem_cons.mp ha
      obtain ⟨hsecond, hb⟩ := List.forall_mem_cons.mp hb
      have hrest := ih (Nat.succ.inj hlength) ha hb
      refine (signOfDifference_decides hfirst hsecond).next List.Lex.rel List.Lex.rel
        fun hsame => ?_
      simp only [List.map_cons, hsame]
      exact hrest.imp .cons (congrArg _) .cons

theorem textLess_iff {s t : List Char} : textLess s t ↔ CodeLt s t := by
  induction s generalizing t with
  | nil =>
    cases t with
    | nil =>
      constructor <;> rintro ⟨⟩
    | cons d t => exact ⟨fun _ => .nil, fun _ => rfl⟩
  | cons c s ih =>
    cases t with
    | nil =>
      constructor <;> rintro ⟨⟩
    | cons d t =>
      simp only [textLess, Bool.or_eq_true, Bool.and_eq_true, decide_eq_true_eq, ih]
      constructor
      · rintro (h | ⟨rfl, h⟩)
        · exact .rel h
        · exact .cons h
      · rintro (_ | h | h)
        · exact .inl h
        · exact .inr ⟨rfl, h⟩

/-- Two identifiers, where the loop goes on with the rest of the pre-releases after equal ones. -/
theorem compareParts_cons {a b : List Char} (as bs : List (List Char))
    (ha : isNumeric a → Exact (digitsValue a)) (hb : isNumeric b → Exact (digitsValue b)) :
    ∃ sign, Decides ((identifier a).Below (identifier b)) (identifier a = identifier b)
        ((identifier b).Below (identifier a)) sign ∧
      compareParts (a :: as) (b :: bs) = if sign ≠ .zero then sign else compareParts as bs := by
  unfold identifier
  by_cases hna : isNumeric a
  · rw [if_pos hna]
    by_cases hnb : isNumeric b
    · rw [if_pos hnb]
      have hsign := signOfDifference_decides (ha hna) (hb hnb)
      refine ⟨_, hsign.imp .numeric (congrArg _) .numeric, ?_⟩
      simp only [compareParts, hna, hnb, and_self, if_true]
      rfl
    · rw [if_neg hnb]
      exact ⟨.negative, .negative .kind, by simp [compareParts, hna, hnb]⟩
  · rw [if_neg hna]
    by_cases hnb : isNumeric b
    · rw [if_pos hnb]
      exact ⟨.positive, .positive .kind, by simp [compareParts, hna, hnb]⟩
    · rw [if_neg hnb]
      rcases trichotomous_of CodeLt a b with h | rfl | h
      · have hless := textLess_iff.mpr h
        exact ⟨.negative, .negative (.alphanumeric h), by simp [compareParts, hna, hnb, hless]⟩
      · have hless : ¬ textLess a a := fun h => irrefl_of CodeLt a (textLess_iff.mp h)
        exact ⟨.zero, .zero rfl, by simp [compareParts, hna, hless]⟩
      · have hless := textLess_iff.mpr h
        have hnot : ¬ textLess a b := fun h' => asymm_of CodeLt h (textLess_iff.mp h')
        exact ⟨.positive, .positive (.alphanumeric h),
          by simp [compareParts, hna, hnb, hless, hnot]⟩

/-- The loop over the identifiers finds which pre-release comes first. -/
theorem compareParts_decides {as bs : List (List Char)}
    (ha : ∀ a ∈ as, isNumeric a → Exact (digitsValue a))
    (hb : ∀ b ∈ bs, isNumeric b → Exact (digitsValue b)) :
    Decides (List.Lex Identifier.Below (as.map identifier) (bs.map identifier))
      (as.map identifier = bs.map identifier)
      (List.Lex Identifier.Below (bs.map identifier) (as.map identifier))
      (compareParts as bs) := by
  induction as generalizing bs with
  | nil =>
    cases bs with
    | nil => exact .zero rfl
    | cons b bs => exact .negative .nil
  | cons a as ih =>
    cases bs with
    | nil => exact .positive .nil
    | cons b bs =>
      obtain ⟨hfirst, ha⟩ := List.forall_mem_cons.mp ha
      obtain ⟨hsecond, hb⟩ := List.forall_mem_cons.mp hb
      obtain ⟨sign, hsign, heq⟩ := compareParts_cons as bs hfirst hsecond
      rw [heq]
      refine hsign.next List.Lex.rel List.Lex.rel fun hsame => ?_
      simp only [List.map_cons, hsame]
      exact (ih ha hb).imp .cons (congrArg _) .cons

/-! ## The comparison -/

/-- Where the parts of a text are exact, its identifiers are. -/
theorem exact_parts {s : List Char} (h : ∀ n, .numeric n ∈ identifiers (some s) → Exact n) :
    ∀ part ∈ s.splitOn '.', isNumeric part → Exact (digitsValue part) := by
  intro part hpart hnumeric
  refine h _ (List.mem_map.mpr ⟨part, hpart, ?_⟩)
  unfold identifier
  rw [if_pos hnumeric]

theorem identifiers_ne_nil (s : List Char) : identifiers (some s) ≠ [] := by
  unfold identifiers
  rw [ne_eq, List.map_eq_nil_iff]
  exact List.splitOn_ne_nil '.' s

/-- The captured groups are compared as the versions. -/
theorem compareGroups_decides {p q : Parts} (hp : ExactNumbers p.version)
    (hq : ExactNumbers q.version) :
    Decides (p.version.Precedes q.version) (p.version.Equivalent q.version)
      (q.version.Precedes p.version) (compareGroups p.groups q.groups) := by
  have hexact : ∀ r : Parts, ExactNumbers r.version →
      ∀ a ∈ [r.major, r.minor, r.patch], Exact (digitsValue a) := fun r hr a ha =>
    hr.core _ (List.mem_map_of_mem ha)
  have hnumbers : Decides (List.Lex (· < ·) p.version.core q.version.core)
      (p.version.core = q.version.core) (List.Lex (· < ·) q.version.core p.version.core)
      (compareNumbers [p.major, p.minor, p.patch] [q.major, q.minor, q.patch]) := by
    refine compareNumbers_decides ?_ (hexact p hp) (hexact q hq)
    rfl
  refine hnumbers.next Version.Precedes.core Version.Precedes.core fun hcore => ?_
  obtain ⟨-, hp⟩ := hp
  obtain ⟨-, hq⟩ := hq
  change Decides _ _ _ (comparePreReleases p.preRelease q.preRelease)
  cases hpre : p.preRelease with
  | none =>
    have hpnil : p.version.preRelease = [] := congrArg identifiers hpre
    cases hqre : q.preRelease with
    | none => exact .zero ⟨hcore, hpnil.trans (congrArg identifiers hqre).symm⟩
    | some t =>
      have hqsome : q.version.preRelease = identifiers (some t) := congrArg identifiers hqre
      exact .positive (.release hcore.symm (hqsome ▸ identifiers_ne_nil t) hpnil)
  | some s =>
    have hpsome : p.version.preRelease = identifiers (some s) := congrArg identifiers hpre
    have hpne := hpsome ▸ identifiers_ne_nil s
    cases hqre : q.preRelease with
    | none => exact .negative (.release hcore hpne (congrArg identifiers hqre))
    | some t =>
      have hqsome : q.version.preRelease = identifiers (some t) := congrArg identifiers hqre
      have hqne := hqsome ▸ identifiers_ne_nil t
      have hparts := compareParts_decides (exact_parts (hpsome ▸ hp)) (exact_parts (hqsome ▸ hq))
      refine hparts.imp (fun h => .preRelease hcore hpne ?_) (fun h => ⟨hcore, ?_⟩)
        fun h => .preRelease hcore.symm hqne ?_
      · rw [hpsome, hqsome]
        exact h
      · rw [hpsome, hqsome]
        exact h
      · rw [hpsome, hqsome]
        exact h

variable {s t : List Char} {v w : Version}

/-- Texts that are read as versions are compared, and the answer is the precedence. -/
theorem compareVersions_decides (hs : Reads s v) (ht : Reads t w) (hv : ExactNumbers v)
    (hw : ExactNumbers w) : ∃ sign, compareVersions s t = .ok sign ∧
      Decides (v.Precedes w) (v.Equivalent w) (w.Precedes v) sign := by
  obtain ⟨p, hp, rfl, rfl⟩ := hs
  obtain ⟨q, hq, rfl, rfl⟩ := ht
  refine ⟨_, ?_, compareGroups_decides hv hw⟩
  unfold compareVersions
  rw [exec_eq_some_iff.mpr ⟨p, hp, rfl, rfl⟩, exec_eq_some_iff.mpr ⟨q, hq, rfl, rfl⟩]

/-- The texts that are compared are those that are read as versions. -/
theorem compareVersions_isOk : (∃ sign, compareVersions s t = .ok sign) ↔
    (∃ v, Reads s v) ∧ ∃ w, Reads t w := by
  constructor
  · rintro ⟨sign, h⟩
    unfold compareVersions at h
    split at h
    · rename_i a b ha hb
      obtain ⟨p, hp, hps, -⟩ := exec_eq_some_iff.mp ha
      obtain ⟨q, hq, hqt, -⟩ := exec_eq_some_iff.mp hb
      exact ⟨⟨_, p, hp, hps, rfl⟩, ⟨_, q, hq, hqt, rfl⟩⟩
    · cases h
  · rintro ⟨⟨-, p, hp, rfl, -⟩, -, q, hq, rfl, -⟩
    refine ⟨compareGroups p.groups q.groups, ?_⟩
    unfold compareVersions
    rw [exec_eq_some_iff.mpr ⟨p, hp, rfl, rfl⟩, exec_eq_some_iff.mpr ⟨q, hq, rfl, rfl⟩]

end Npm

end Orqalis
