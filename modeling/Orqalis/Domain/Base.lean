import Orqalis.Lib.Table
import Mathlib.Data.String.Basic
import Mathlib.Data.Nat.Digits.Defs

/-!
# Identifiers, instants and errors

An identifier is either drawn at random (`uuid4`, here the next number of a supply) or
derived from a namespace and a name (`uuid5`). Both are taken as free of collisions, which
the constructors say. What the code reads off an identifier is its text, in the keys it
builds and in the order it sorts by; the text here is another one than the hexadecimal
form, and like it names its identifier (`UUID.text_injective`).

Instants are microseconds. Every clock reading reaches the model as an argument.
-/

namespace Orqalis

/-- A universally unique identifier. -/
inductive UUID
  | uuid4 (n : Nat)
  | uuid5 (ns : UUID) (name : String)
deriving DecidableEq, Repr

/-- An instant, in microseconds since the epoch. -/
abbrev Time := Nat

namespace UUID

instance : Inhabited UUID := ⟨uuid4 0⟩

/-- A number in unary, closed by a dot. -/
private def mark (n : Nat) : List Char := List.replicate n '1' ++ ['.']

private theorem mark_append_inj {m n : Nat} {a b : List Char}
    (h : mark m ++ a = mark n ++ b) : m = n ∧ a = b := by
  induction m generalizing n with
  | zero =>
    cases n with
    | zero => exact ⟨rfl, by simpa [mark] using h⟩
    | succ n => simp [mark, List.replicate_succ] at h
  | succ m ih =>
    cases n with
    | zero => simp [mark, List.replicate_succ] at h
    | succ n =>
      have htail : mark m ++ a = mark n ++ b := by
        simpa [mark, List.replicate_succ] using h
      obtain ⟨rfl, rfl⟩ := ih htail
      exact ⟨rfl, rfl⟩

/-- The characters of an identifier's text. -/
def chars : UUID → List Char
  | uuid4 n => '4' :: mark n
  | uuid5 ns name => '5' :: (mark name.toList.length ++ (name.toList ++ ns.chars))

theorem chars_injective : Function.Injective chars := by
  intro a
  induction a with
  | uuid4 n =>
    intro b h
    cases b with
    | uuid4 m =>
      have hmark : mark n ++ [] = mark m ++ [] := by simpa [chars] using h
      rw [(mark_append_inj hmark).1]
    | uuid5 ns name => simp [chars] at h
  | uuid5 ns name ih =>
    intro b h
    cases b with
    | uuid4 m => simp [chars] at h
    | uuid5 ns' name' =>
      have htail := (List.cons.inj h).2
      obtain ⟨hlength, hrest⟩ := mark_append_inj htail
      obtain ⟨hname, hns⟩ := List.append_inj hrest hlength
      rw [ih hns, String.toList_inj.mp hname]

/-- The text of an identifier, `str(id)`. -/
def text (u : UUID) : String := String.ofList u.chars

/-- The text names its identifier. -/
theorem text_injective : Function.Injective text := by
  intro a b h
  exact chars_injective (String.ofList_injective h)

end UUID

/-- An operational error: its code and its message. -/
inductive Error
  | conflict (message : String)
  | notFound (message : String)
  | policyDenied (message : String)
  | input (message : String)
  | format (message : String)
  | runtime (message : String)
deriving DecidableEq, Repr

/-! ## Listing order -/

/-- The order of a listing: by creation, then by the text of the identifier. -/
def createdBefore (at₁ : Time) (id₁ : UUID) (at₂ : Time) (id₂ : UUID) : Prop :=
  at₁ < at₂ ∨ (at₁ = at₂ ∧ id₁.text ≤ id₂.text)

instance (at₁ : Time) (id₁ : UUID) (at₂ : Time) (id₂ : UUID) :
    Decidable (createdBefore at₁ id₁ at₂ id₂) := by
  unfold createdBefore
  infer_instance

end Orqalis
