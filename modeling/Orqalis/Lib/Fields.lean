import Orqalis.Lib.Loads

/-!
# Records read from documents

A record is read from an object field by field: a field that is missing has its default, and a
key that names no field refuses the object.
-/

namespace Lib.Fields

variable {F α : Type}

/-- A string: its code points. -/
abbrev Str := List Nat

/-- The code points of a name. -/
def codes (s : String) : Str := s.toList.map Char.toNat

/-- The members of an object. -/
abbrev Members (F : Type) := List (Str × Value F)

/-- The value a name has. -/
def member (ms : Members F) (name : String) : Option (Value F) := ms.lookup (codes name)

/-- Whether every key names a field. -/
def closed (names : List String) (ms : Members F) : Bool :=
  ms.all fun m => (names.map codes).contains m.1

/-- A field: what is read of its value, and its default where it has none. -/
def field (ms : Members F) (name : String) (read : Value F → Option α) (missing : Option α) :
    Option α :=
  match member ms name with
  | some v => read v
  | none => missing

/-- A value, or nothing. -/
def optional (read : Value F → Option α) : Value F → Option (Option α)
  | .null => some none
  | v => (read v).map some

/-- A value that passes a check. -/
def checked (ok : α → Bool) (read : Value F → Option α) (v : Value F) : Option α :=
  (read v).filter ok

/-- A list of values. -/
def tuple (read : Value F → Option α) : Value F → Option (List α)
  | .arr vs => vs.mapM read
  | _ => none

/-- A table of values. -/
def dict (readKey : Value F → Option Str) (read : Value F → Option α) :
    Value F → Option (List (Str × α))
  | .obj ms => ms.mapM fun m => do
    let key ← readKey (.str m.1)
    let v ← read m.2
    return (key, v)
  | _ => none

/-- A value, or null. -/
def orNull (spell : α → Value F) : Option α → Value F
  | some x => spell x
  | none => .null

/-- A field that is there does not read its default. -/
theorem field_of_member {ms : Members F} {name : String} (read : Value F → Option α)
    (h : (member ms name).isSome) (missing missing' : Option α) :
    field ms name read missing = field ms name read missing' := by
  obtain ⟨v, hv⟩ := Option.isSome_iff_exists.mp h
  unfold field
  rw [hv]

end Lib.Fields
