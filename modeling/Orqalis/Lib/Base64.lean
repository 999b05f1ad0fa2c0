import Mathlib.Data.List.DropRight
import Mathlib.Data.List.TakeWhile

/-!
# Base64 in the alphabet for URLs

The padded encoding of bytes, its decoding, and the same without padding: the padding that a
text lost follows from its length (`decode_pad`).
-/

namespace Lib.Base64

/-- The character for six bits. -/
def digit (n : Nat) : Char :=
  if n < 26 then Char.ofNat (n + 65)
  else if n < 52 then Char.ofNat (n + 71)
  else if n < 62 then Char.ofNat (n - 4)
  else if n = 62 then '-'
  else '_'

/-- The six bits of a character. -/
def value (c : Char) : Option Nat :=
  if 'A' ≤ c ∧ c ≤ 'Z' then some (c.toNat - 65)
  else if 'a' ≤ c ∧ c ≤ 'z' then some (c.toNat - 71)
  else if '0' ≤ c ∧ c ≤ '9' then some (c.toNat + 4)
  else if c = '-' then some 62
  else if c = '_' then some 63
  else none

/-- The encoding, padded to a multiple of four characters. -/
def encode : List UInt8 → List Char
  | [] => []
  | [a] => [digit (a.toNat / 4), digit (a.toNat % 4 * 16), '=', '=']
  | [a, b] =>
    [digit (a.toNat / 4), digit (a.toNat % 4 * 16 + b.toNat / 16), digit (b.toNat % 16 * 4), '=']
  | a :: b :: c :: rest =>
    digit (a.toNat / 4) :: digit (a.toNat % 4 * 16 + b.toNat / 16) ::
      digit (b.toNat % 16 * 4 + c.toNat / 64) :: digit (c.toNat % 64) :: encode rest

/-- The bytes of a padded text; bits that only fill up are not looked at. -/
def decode : List Char → Option (List UInt8)
  | [] => some []
  | [w, x, '=', '='] => do
    let w ← value w
    let x ← value x
    return [UInt8.ofNat (w * 4 + x / 16)]
  | [w, x, y, '='] => do
    let w ← value w
    let x ← value x
    let y ← value y
    return [UInt8.ofNat (w * 4 + x / 16), UInt8.ofNat (x % 16 * 16 + y / 4)]
  | w :: x :: y :: z :: rest => do
    let w ← value w
    let x ← value x
    let y ← value y
    let z ← value z
    let bytes ← decode rest
    return UInt8.ofNat (w * 4 + x / 16) :: UInt8.ofNat (x % 16 * 16 + y / 4) ::
      UInt8.ofNat (y % 4 * 64 + z) :: bytes
  | _ => none

/-- A text without the padding at its end. -/
def unpad (s : List Char) : List Char := s.rdropWhile (· = '=')

/-- A text with the padding that its length asks for. -/
def pad (s : List Char) : List Char := s ++ List.replicate ((4 - s.length % 4) % 4) '='

theorem value_digit : ∀ n < 64, value (digit n) = some n := by decide

theorem digit_ne : ∀ n < 64, digit n ≠ '=' := by decide

theorem decode_encode (bytes : List UInt8) : decode (encode bytes) = some bytes := by
  have hbyte : ∀ a : UInt8, a.toNat < 256 := UInt8.toNat_lt
  induction bytes using encode.induct with
  | case1 => rfl
  | case2 a =>
    have ha := hbyte a
    have hbits : a.toNat / 4 * 4 + a.toNat % 4 * 16 / 16 = a.toNat := by omega
    simp only [encode, decode, value_digit (a.toNat / 4) (by omega),
      value_digit (a.toNat % 4 * 16) (by omega), Option.bind_eq_bind, Option.bind_some,
      Option.pure_def, hbits, UInt8.ofNat_toNat]
  | case3 a b =>
    have ha := hbyte a
    have hb := hbyte b
    have hlast : digit (b.toNat % 16 * 4) ≠ '=' := digit_ne _ (by omega)
    have hfirst : a.toNat / 4 * 4 + (a.toNat % 4 * 16 + b.toNat / 16) / 16 = a.toNat := by omega
    have hsecond : (a.toNat % 4 * 16 + b.toNat / 16) % 16 * 16 + b.toNat % 16 * 4 / 4 =
        b.toNat := by omega
    rw [encode, decode]
    · simp only [value_digit (a.toNat / 4) (by omega),
        value_digit (a.toNat % 4 * 16 + b.toNat / 16) (by omega),
        value_digit (b.toNat % 16 * 4) (by omega), Option.bind_eq_bind, Option.bind_some,
        Option.pure_def, hfirst, hsecond, UInt8.ofNat_toNat]
    · exact hlast
  | case4 a b c rest ih =>
    have ha := hbyte a
    have hb := hbyte b
    have hc := hbyte c
    have hlast : digit (c.toNat % 64) ≠ '=' := digit_ne _ (by omega)
    have hfirst : a.toNat / 4 * 4 + (a.toNat % 4 * 16 + b.toNat / 16) / 16 = a.toNat := by omega
    have hsecond : (a.toNat % 4 * 16 + b.toNat / 16) % 16 * 16 +
        (b.toNat % 16 * 4 + c.toNat / 64) / 4 = b.toNat := by omega
    have hthird : (b.toNat % 16 * 4 + c.toNat / 64) % 4 * 64 + c.toNat % 64 = c.toNat := by omega
    rw [encode, decode]
    · simp only [value_digit (a.toNat / 4) (by omega),
        value_digit (a.toNat % 4 * 16 + b.toNat / 16) (by omega),
        value_digit (b.toNat % 16 * 4 + c.toNat / 64) (by omega),
        value_digit (c.toNat % 64) (by omega), ih, Option.bind_eq_bind, Option.bind_some,
        Option.pure_def, hfirst, hsecond, hthird, UInt8.ofNat_toNat]
    · intro _ h _
      exact absurd h hlast
    · intro h _
      exact absurd h hlast

/-- The encoding is what carries bits, then the padding. -/
theorem encode_split (bytes : List UInt8) : ∃ body k, encode bytes = body ++ List.replicate k '=' ∧
    (∀ c ∈ body, (value c).isSome) ∧ k ≤ 2 ∧ body.length + k = 4 * ((bytes.length + 2) / 3) := by
  have hbyte : ∀ a : UInt8, a.toNat < 256 := UInt8.toNat_lt
  have hdigit : ∀ n < 64, (value (digit n)).isSome := fun n hn => by rw [value_digit n hn]; rfl
  induction bytes using encode.induct with
  | case1 => exact ⟨[], 0, rfl, by simp, by decide, rfl⟩
  | case2 a =>
    have ha := hbyte a
    refine ⟨[digit (a.toNat / 4), digit (a.toNat % 4 * 16)], 2, rfl, ?_, le_rfl, by simp⟩
    simp only [List.forall_mem_cons, List.not_mem_nil, false_imp_iff, implies_true, and_true]
    exact ⟨hdigit _ (by omega), hdigit _ (by omega)⟩
  | case3 a b =>
    have ha := hbyte a
    have hb := hbyte b
    refine ⟨[digit (a.toNat / 4), digit (a.toNat % 4 * 16 + b.toNat / 16),
      digit (b.toNat % 16 * 4)], 1, rfl, ?_, by decide, by simp⟩
    simp only [List.forall_mem_cons, List.not_mem_nil, false_imp_iff, implies_true, and_true]
    exact ⟨hdigit _ (by omega), hdigit _ (by omega), hdigit _ (by omega)⟩
  | case4 a b c rest ih =>
    have ha := hbyte a
    have hb := hbyte b
    have hc := hbyte c
    obtain ⟨body, k, heq, hbody, hk, hlength⟩ := ih
    refine ⟨digit (a.toNat / 4) :: digit (a.toNat % 4 * 16 + b.toNat / 16) ::
      digit (b.toNat % 16 * 4 + c.toNat / 64) :: digit (c.toNat % 64) :: body, k, ?_, ?_, hk, ?_⟩
    · rw [encode, heq]
      rfl
    · simp only [List.forall_mem_cons]
      exact ⟨hdigit _ (by omega), hdigit _ (by omega), hdigit _ (by omega), hdigit _ (by omega),
        hbody⟩
    · simp only [List.length_cons]
      omega

/-- Without its padding, the encoding is all that carries bits. -/
theorem unpad_encode (bytes : List UInt8) : ∃ k, encode bytes =
    unpad (encode bytes) ++ List.replicate k '=' ∧ (∀ c ∈ unpad (encode bytes), (value c).isSome) ∧
    k ≤ 2 ∧ (unpad (encode bytes)).length + k = 4 * ((bytes.length + 2) / 3) := by
  obtain ⟨body, k, heq, hbody, hk, hlength⟩ := encode_split bytes
  have hunpad : unpad (encode bytes) = body := by
    rw [heq]
    unfold unpad List.rdropWhile
    rw [List.reverse_append, List.reverse_replicate,
      List.dropWhile_append_of_pos fun c hc => by simpa using List.eq_of_mem_replicate hc]
    cases hrev : body.reverse with
    | nil => rw [List.reverse_eq_nil_iff.mp hrev]; rfl
    | cons c cs =>
      have hmem : c ∈ body := List.mem_reverse.mp (hrev ▸ List.mem_cons_self)
      have hne : c ≠ '=' := by
        rintro rfl
        exact absurd (hbody '=' hmem) (by decide)
      rw [List.dropWhile_cons_of_neg (by simpa using hne), ← hrev, List.reverse_reverse]
  rw [hunpad]
  exact ⟨k, heq, hbody, hk, hlength⟩

/-- What was encoded is read back without its padding. -/
theorem decode_pad (bytes : List UInt8) : decode (pad (unpad (encode bytes))) = some bytes := by
  obtain ⟨k, heq, -, hk, hlength⟩ := unpad_encode bytes
  have hpad : pad (unpad (encode bytes)) = encode bytes := by
    have hcount : (4 - (unpad (encode bytes)).length % 4) % 4 = k := by omega
    conv_rhs => rw [heq]
    unfold pad
    rw [hcount]
  rw [hpad, decode_encode]

end Lib.Base64
