import Mathlib.Data.List.Lex

/-!
# Precedence of versions

Semantic versions and their precedence. The three numbers are compared first. With equal numbers
a pre-release comes before the release, and two pre-releases are compared identifier by
identifier: numeric identifiers by their values, others by the codes of their characters, a
numeric one before one that is not, and a list before the longer ones that it begins. Build
metadata has no part in it.

`Precedes` is transitive, and of two versions one precedes the other or they differ in their build
metadata at most (`precedes_trichotomous`).
-/

namespace Lib.SemVer

/-- An identifier of a pre-release. -/
inductive Identifier
  | numeric (value : Nat)
  | alphanumeric (text : List Char)
deriving DecidableEq

/-- A text comes before another by the codes of their characters. -/
def CodeLt : List Char → List Char → Prop := List.Lex fun c d => c.toNat < d.toNat

/-- An identifier comes before another. -/
inductive Identifier.Below : Identifier → Identifier → Prop
  | numeric {m n : Nat} (h : m < n) : Below (.numeric m) (.numeric n)
  | kind {m : Nat} {s : List Char} : Below (.numeric m) (.alphanumeric s)
  | alphanumeric {s t : List Char} (h : CodeLt s t) : Below (.alphanumeric s) (.alphanumeric t)

structure Version where
  major : Nat
  minor : Nat
  patch : Nat
  preRelease : List Identifier
  build : Option (List Char)
deriving DecidableEq

namespace Version

/-- The numbers of a version. -/
def core (v : Version) : List Nat := [v.major, v.minor, v.patch]

/-- A version comes before another. -/
inductive Precedes (v w : Version) : Prop
  | core (h : List.Lex (· < ·) v.core w.core)
  | release (hcore : v.core = w.core) (hv : v.preRelease ≠ []) (hw : w.preRelease = [])
  | preRelease (hcore : v.core = w.core) (hv : v.preRelease ≠ [])
      (h : List.Lex Identifier.Below v.preRelease w.preRelease)

/-- Two versions differ in their build metadata at most. -/
def Equivalent (v w : Version) : Prop := v.core = w.core ∧ v.preRelease = w.preRelease

end Version

/-! ## Identifiers are in a line -/

instance strictTotalOrder_char : IsStrictTotalOrder Char fun c d => c.toNat < d.toNat where
  irrefl _ := Nat.lt_irrefl _
  trans _ _ _ := Nat.lt_trans
  trichotomous _ _ hcd hdc :=
    Char.toNat_inj.mp (Nat.le_antisymm (Nat.le_of_not_lt hdc) (Nat.le_of_not_lt hcd))

/-- Lists are in a line when their elements are. -/
theorem lex_strictTotal {α : Type*} (r : α → α → Prop) [IsStrictTotalOrder α r] :
    IsStrictTotalOrder (List α) (List.Lex r) :=
  { isStrictWeakOrder_of_isOrderConnected with }

instance strictTotalOrder_codeLt : IsStrictTotalOrder (List Char) CodeLt := lex_strictTotal _

theorem below_trans {i j k : Identifier} (hij : i.Below j) (hjk : j.Below k) : i.Below k := by
  cases hij with
  | numeric h =>
    cases hjk with
    | numeric h' => exact .numeric (Nat.lt_trans h h')
    | kind => exact .kind
  | kind =>
    cases hjk
    exact .kind
  | alphanumeric h =>
    cases hjk with
    | alphanumeric h' => exact .alphanumeric (trans_of CodeLt h h')

theorem below_irrefl (i : Identifier) : ¬ i.Below i := by
  rintro (h | _ | h)
  · exact Nat.lt_irrefl _ h
  · exact irrefl_of CodeLt _ h

theorem below_trichotomous (i j : Identifier) : i.Below j ∨ i = j ∨ j.Below i := by
  cases i with
  | numeric m =>
    cases j with
    | numeric n =>
      rcases Nat.lt_trichotomy m n with h | rfl | h
      · exact .inl (.numeric h)
      · exact .inr (.inl rfl)
      · exact .inr (.inr (.numeric h))
    | alphanumeric t => exact .inl .kind
  | alphanumeric s =>
    cases j with
    | numeric n => exact .inr (.inr .kind)
    | alphanumeric t =>
      rcases trichotomous_of CodeLt s t with h | rfl | h
      · exact .inl (.alphanumeric h)
      · exact .inr (.inl rfl)
      · exact .inr (.inr (.alphanumeric h))

instance strictTotalOrder_identifier : IsStrictTotalOrder Identifier Identifier.Below where
  irrefl := below_irrefl
  trans _ _ _ := below_trans
  trichotomous i j hij hji := by
    rcases below_trichotomous i j with h | h | h
    · exact absurd h hij
    · exact h
    · exact absurd h hji

instance strictTotalOrder_identifiers :
    IsStrictTotalOrder (List Identifier) (List.Lex Identifier.Below) := lex_strictTotal _

instance strictTotalOrder_naturals : IsStrictTotalOrder (List Nat) (List.Lex (· < ·)) :=
  lex_strictTotal _

/-! ## Precedence -/

namespace Version

variable {u v w : Version}

/-- One comes before the other, or they are equivalent. -/
theorem precedes_trichotomous (v w : Version) :
    v.Precedes w ∨ v.Equivalent w ∨ w.Precedes v := by
  rcases trichotomous_of (List.Lex (· < ·)) v.core w.core with h | hcore | h
  · exact .inl (.core h)
  · by_cases hv : v.preRelease = []
    · by_cases hw : w.preRelease = []
      · exact .inr (.inl ⟨hcore, hv.trans hw.symm⟩)
      · exact .inr (.inr (.release hcore.symm hw hv))
    · by_cases hw : w.preRelease = []
      · exact .inl (.release hcore hv hw)
      · rcases trichotomous_of (List.Lex Identifier.Below) v.preRelease w.preRelease
          with h | h | h
        · exact .inl (.preRelease hcore hv h)
        · exact .inr (.inl ⟨hcore, h⟩)
        · exact .inr (.inr (.preRelease hcore.symm hw h))
  · exact .inr (.inr (.core h))

theorem Precedes.not_equivalent (h : v.Precedes w) : ¬ v.Equivalent w := by
  rintro ⟨hcore, hpre⟩
  cases h with
  | core h => exact irrefl_of (List.Lex (· < ·)) _ (hcore ▸ h)
  | release _ hv hw => exact hv (hpre.trans hw)
  | preRelease _ _ h => exact irrefl_of (List.Lex Identifier.Below) _ (hpre ▸ h)

theorem Precedes.trans (huv : u.Precedes v) (hvw : v.Precedes w) : u.Precedes w := by
  cases huv with
  | core h =>
    cases hvw with
    | core h' => exact .core (trans_of (List.Lex (· < ·)) h h')
    | release hcore => exact .core (hcore ▸ h)
    | preRelease hcore => exact .core (hcore ▸ h)
  | release hcore hu hv =>
    cases hvw with
    | core h' => exact .core (hcore ▸ h')
    | release _ hv' => exact absurd hv hv'
    | preRelease _ hv' => exact absurd hv hv'
  | preRelease hcore hu h =>
    cases hvw with
    | core h' => exact .core (hcore ▸ h')
    | release hcore' _ hw => exact .release (hcore.trans hcore') hu hw
    | preRelease hcore' _ h' =>
      exact .preRelease (hcore.trans hcore') hu (trans_of (List.Lex Identifier.Below) h h')

theorem Precedes.asymm (h : v.Precedes w) : ¬ w.Precedes v := fun h' =>
  (h.trans h').not_equivalent ⟨rfl, rfl⟩

theorem Equivalent.symm (h : v.Equivalent w) : w.Equivalent v := ⟨h.1.symm, h.2.symm⟩

theorem Equivalent.trans (huv : u.Equivalent v) (hvw : v.Equivalent w) : u.Equivalent w :=
  ⟨huv.1.trans hvw.1, huv.2.trans hvw.2⟩

/-- What a version precedes every equivalent one precedes. -/
theorem Equivalent.precedes (huv : u.Equivalent v) (h : v.Precedes w) : u.Precedes w := by
  obtain ⟨hcore, hpre⟩ := huv
  cases h with
  | core h => exact .core (hcore ▸ h)
  | release hvw hv hw => exact .release (hcore.trans hvw) (hpre ▸ hv) hw
  | preRelease hvw hv h => exact .preRelease (hcore.trans hvw) (hpre ▸ hv) (hpre ▸ h)

/-- What precedes a version precedes every equivalent one. -/
theorem Precedes.congr (h : u.Precedes v) (hvw : v.Equivalent w) : u.Precedes w := by
  obtain ⟨hcore, hpre⟩ := hvw
  cases h with
  | core h => exact .core (hcore ▸ h)
  | release huv hu hv => exact .release (huv.trans hcore) hu (hpre ▸ hv)
  | preRelease huv hu h => exact .preRelease (huv.trans hcore) hu (hpre ▸ h)

end Version

end Lib.SemVer
