import Mathlib.Data.List.Basic
import Mathlib.Logic.Function.Basic

/-!
# UTF-8

Bytes and the characters they spell, each in the one form there is: what `first` reads is what
`encode` writes (`first_eq_some_iff`). A byte that no character continues with separates what is
before it from what is after it (`first_append`).

`decode` refuses bytes that spell no character. `decodeEscape` puts a lone surrogate in their
place instead, and loses nothing (`decodeEscape_injective`).
-/

namespace Lib.Utf8

/-- Whether a byte continues a character. -/
def follows (b : UInt8) : Bool := 0x80 ≤ b.toNat && b.toNat < 0xC0

/-- The bits a byte that continues a character carries. -/
def bits (b : UInt8) : Nat := b.toNat % 0x40

/-- The character of two bytes. -/
def two (a : UInt8) : List UInt8 → Option (Nat × List UInt8)
  | b :: rest =>
    if 0xC2 ≤ a.toNat ∧ follows b then some (a.toNat % 0x20 * 0x40 + bits b, rest) else none
  | _ => none

/-- What three bytes spell. -/
def value₃ (a b c : UInt8) : Nat := a.toNat % 0x10 * 0x1000 + bits b * 0x40 + bits c

/-- The character of three bytes. -/
def three (a : UInt8) : List UInt8 → Option (Nat × List UInt8)
  | b :: c :: rest =>
    if follows b ∧ follows c ∧ 0x800 ≤ value₃ a b c ∧ (value₃ a b c).isValidChar then
      some (value₃ a b c, rest)
    else none
  | _ => none

/-- What four bytes spell. -/
def value₄ (a b c d : UInt8) : Nat :=
  a.toNat % 0x08 * 0x40000 + bits b * 0x1000 + bits c * 0x40 + bits d

/-- The character of four bytes. -/
def four (a : UInt8) : List UInt8 → Option (Nat × List UInt8)
  | b :: c :: d :: rest =>
    if a.toNat < 0xF8 ∧ follows b ∧ follows c ∧ follows d ∧ 0x10000 ≤ value₄ a b c d ∧
        (value₄ a b c d).isValidChar then
      some (value₄ a b c d, rest)
    else none
  | _ => none

/-- The first character of bytes, and what is left. -/
def first : List UInt8 → Option (Nat × List UInt8)
  | [] => none
  | a :: rest =>
    if a.toNat < 0x80 then some (a.toNat, rest)
    else if a.toNat < 0xE0 then two a rest
    else if a.toNat < 0xF0 then three a rest
    else four a rest

/-- The bytes of a character. -/
def encode (c : Nat) : List UInt8 :=
  if c < 0x80 then [.ofNat c]
  else if c < 0x800 then [.ofNat (0xC0 + c / 0x40), .ofNat (0x80 + c % 0x40)]
  else if c < 0x10000 then
    [.ofNat (0xE0 + c / 0x1000), .ofNat (0x80 + c / 0x40 % 0x40), .ofNat (0x80 + c % 0x40)]
  else
    [.ofNat (0xF0 + c / 0x40000), .ofNat (0x80 + c / 0x1000 % 0x40),
      .ofNat (0x80 + c / 0x40 % 0x40), .ofNat (0x80 + c % 0x40)]

variable {bytes rest xs ys : List UInt8} {a b : UInt8} {c n : Nat}

theorem follows_iff : follows b ↔ 0x80 ≤ b.toNat ∧ b.toNat < 0xC0 := by
  simp [follows]

theorem two_eq_some : two a bytes = some (c, rest) ↔
    ∃ b, bytes = b :: rest ∧ 0xC2 ≤ a.toNat ∧ follows b ∧ c = a.toNat % 0x20 * 0x40 + bits b := by
  match bytes with
  | [] => simp [two]
  | b :: tail =>
    rw [two]
    split_ifs with h <;> grind

theorem three_eq_some : three a bytes = some (n, rest) ↔
    ∃ b c, bytes = b :: c :: rest ∧ follows b ∧ follows c ∧ 0x800 ≤ n ∧ n.isValidChar ∧
      n = value₃ a b c := by
  match bytes with
  | [] => simp [three]
  | [b] => simp [three]
  | b :: c :: tail =>
    rw [three]
    split_ifs with h <;> grind

theorem four_eq_some : four a bytes = some (n, rest) ↔
    ∃ b c d, bytes = b :: c :: d :: rest ∧ a.toNat < 0xF8 ∧ follows b ∧ follows c ∧ follows d ∧
      0x10000 ≤ n ∧ n.isValidChar ∧ n = value₄ a b c d := by
  match bytes with
  | [] => simp [four]
  | [b] => simp [four]
  | [b, c] => simp [four]
  | b :: c :: d :: tail =>
    rw [four]
    split_ifs with h <;> grind

/-- What is read of bytes: a character of one to four of them. -/
theorem first_cases (h : first bytes = some (n, rest)) :
    (∃ a, bytes = a :: rest ∧ a.toNat < 0x80 ∧ n = a.toNat) ∨
    (∃ a b, bytes = a :: b :: rest ∧ 0xC2 ≤ a.toNat ∧ a.toNat < 0xE0 ∧ follows b ∧
      n = a.toNat % 0x20 * 0x40 + bits b) ∨
    (∃ a b c, bytes = a :: b :: c :: rest ∧ 0xE0 ≤ a.toNat ∧ a.toNat < 0xF0 ∧ follows b ∧
      follows c ∧ 0x800 ≤ n ∧ n.isValidChar ∧ n = value₃ a b c) ∨
    ∃ a b c d, bytes = a :: b :: c :: d :: rest ∧ 0xF0 ≤ a.toNat ∧ a.toNat < 0xF8 ∧ follows b ∧
      follows c ∧ follows d ∧ 0x10000 ≤ n ∧ n.isValidChar ∧ n = value₄ a b c d := by
  cases bytes with
  | nil => cases h
  | cons a tail =>
    rw [first] at h
    split_ifs at h with h₁ h₂ h₃
    · cases h
      exact .inl ⟨a, rfl, h₁, rfl⟩
    · obtain ⟨b, rfl, hlead, hb, hn⟩ := two_eq_some.mp h
      exact .inr (.inl ⟨a, b, rfl, hlead, h₂, hb, hn⟩)
    · obtain ⟨b, c, rfl, hb, hc, hlow, hvalid, hn⟩ := three_eq_some.mp h
      exact .inr (.inr (.inl ⟨a, b, c, rfl, by omega, h₃, hb, hc, hlow, hvalid, hn⟩))
    · obtain ⟨b, c, d, rfl, hlead, hb, hc, hd, hlow, hvalid, hn⟩ := four_eq_some.mp h
      exact .inr (.inr (.inr
        ⟨a, b, c, d, rfl, by omega, hlead, hb, hc, hd, hlow, hvalid, hn⟩))

theorem first_length (h : first bytes = some (n, rest)) : rest.length < bytes.length := by
  rcases first_cases h with ⟨a, rfl, -⟩ | ⟨a, b, rfl, -⟩ | ⟨a, b, c, rfl, -⟩ | ⟨a, b, c, d, rfl, -⟩
  all_goals
    simp only [List.length_cons]
    omega

/-- A byte that continues no character is not read with what is before it. -/
theorem first_append (hb : follows b = false) (hxs : xs ≠ []) (ys : List UInt8) :
    first (xs ++ b :: ys) = (first xs).map fun p => (p.1, p.2 ++ b :: ys) := by
  cases xs with
  | nil => exact absurd rfl hxs
  | cons a tail =>
    rw [List.cons_append, first, first]
    split_ifs
    · rfl
    · match tail with
      | [] => simp [two, hb]
      | b' :: tail =>
        simp only [List.cons_append, two]
        split_ifs <;> rfl
    · match tail with
      | [] => cases ys <;> simp [three, hb]
      | [b'] => simp [three, hb]
      | b' :: c' :: tail =>
        simp only [List.cons_append, three]
        split_ifs <;> rfl
    · match tail with
      | [] => rcases ys with _ | ⟨_, _ | _⟩ <;> simp [four, hb]
      | [b'] => cases ys <;> simp [four, hb]
      | [b', c'] => simp [four, hb]
      | b' :: c' :: d' :: tail =>
        simp only [List.cons_append, four]
        split_ifs <;> rfl

theorem toNat_ofNat (h : n < 256) : (UInt8.ofNat n).toNat = n := by
  simp [Nat.mod_eq_of_lt h]

theorem ofNat_eq (h : b.toNat = n) : UInt8.ofNat n = b := by
  rw [← h, UInt8.ofNat_toNat]

/-- What was written is read. -/
theorem first_encode (hc : c.isValidChar) (rest : List UInt8) :
    first (encode c ++ rest) = some (c, rest) := by
  have hmax : c < 0x110000 := by
    unfold Nat.isValidChar at hc
    omega
  unfold encode
  split_ifs with h₁ h₂ h₃
  · have ha := toNat_ofNat (show c < 256 by omega)
    simp only [List.cons_append, List.nil_append]
    rw [first, ha, if_pos h₁]
  · have ha := toNat_ofNat (show 0xC0 + c / 0x40 < 256 by omega)
    have hb := toNat_ofNat (show 0x80 + c % 0x40 < 256 by omega)
    simp only [List.cons_append, List.nil_append]
    rw [first, ha, if_neg (by omega), if_pos (by omega)]
    refine two_eq_some.mpr ⟨_, rfl, by omega, follows_iff.mpr (by omega), ?_⟩
    rw [bits, ha, hb]
    omega
  · have ha := toNat_ofNat (show 0xE0 + c / 0x1000 < 256 by omega)
    have hb := toNat_ofNat (show 0x80 + c / 0x40 % 0x40 < 256 by omega)
    have hd := toNat_ofNat (show 0x80 + c % 0x40 < 256 by omega)
    simp only [List.cons_append, List.nil_append]
    rw [first, ha, if_neg (by omega), if_neg (by omega), if_pos (by omega)]
    refine three_eq_some.mpr ⟨_, _, rfl, follows_iff.mpr (by omega), follows_iff.mpr (by omega),
      by omega, hc, ?_⟩
    rw [value₃, bits, bits, ha, hb, hd]
    omega
  · have ha := toNat_ofNat (show 0xF0 + c / 0x40000 < 256 by omega)
    have hb := toNat_ofNat (show 0x80 + c / 0x1000 % 0x40 < 256 by omega)
    have hd := toNat_ofNat (show 0x80 + c / 0x40 % 0x40 < 256 by omega)
    have he := toNat_ofNat (show 0x80 + c % 0x40 < 256 by omega)
    simp only [List.cons_append, List.nil_append]
    rw [first, ha, if_neg (by omega), if_neg (by omega), if_neg (by omega)]
    refine four_eq_some.mpr ⟨_, _, _, rfl, by omega, follows_iff.mpr (by omega),
      follows_iff.mpr (by omega), follows_iff.mpr (by omega), by omega, hc, ?_⟩
    rw [value₄, bits, bits, bits, ha, hb, hd, he]
    omega

/-- What is read was written. -/
theorem encode_of_first (h : first bytes = some (n, rest)) :
    n.isValidChar ∧ bytes = encode n ++ rest := by
  rcases first_cases h with ⟨a, rfl, hlow, rfl⟩ | ⟨a, b, rfl, hlow, hhigh, hb, rfl⟩ |
    ⟨a, b, c, rfl, hlow, hhigh, hb, hc, hleast, hvalid, hn⟩ |
    ⟨a, b, c, d, rfl, hlow, hhigh, hb, hc, hd, hleast, hvalid, hn⟩
  · refine ⟨.inl (by omega), ?_⟩
    rw [encode, if_pos hlow, UInt8.ofNat_toNat]
    rfl
  · have hb := follows_iff.mp hb
    refine ⟨.inl (by rw [bits]; omega), ?_⟩
    rw [encode, if_neg (by rw [bits]; omega), if_pos (by rw [bits]; omega),
      ofNat_eq (b := a) (by rw [bits]; omega), ofNat_eq (b := b) (by rw [bits]; omega)]
    rfl
  · have hb := follows_iff.mp hb
    have hc := follows_iff.mp hc
    refine ⟨hvalid, ?_⟩
    rw [value₃, bits, bits] at hn
    rw [encode, if_neg (by omega), if_neg (by omega), if_pos (by omega),
      ofNat_eq (b := a) (by omega), ofNat_eq (b := b) (by omega), ofNat_eq (b := c) (by omega)]
    rfl
  · have hb := follows_iff.mp hb
    have hc := follows_iff.mp hc
    have hd := follows_iff.mp hd
    refine ⟨hvalid, ?_⟩
    rw [value₄, bits, bits, bits] at hn
    rw [encode, if_neg (by omega), if_neg (by omega), if_neg (by omega),
      ofNat_eq (b := a) (by omega), ofNat_eq (b := b) (by omega), ofNat_eq (b := c) (by omega),
      ofNat_eq (b := d) (by omega)]
    rfl

theorem encode_ne_nil : encode n ≠ [] := by
  unfold encode
  split_ifs <;> simp

theorem encode_ascii (h : n < 0x80) : encode n = [.ofNat n] := if_pos h

theorem first_ascii (hb : b.toNat < 0x80) : first (b :: ys) = some (b.toNat, ys) := by
  rw [first, if_pos hb]

/-! ## Text -/

/-- The bytes of a text. -/
def encodeText (s : List Char) : List UInt8 := s.flatMap fun c => encode c.toNat

/-- The text of bytes. -/
def decode (bytes : List UInt8) : Option (List Char) :=
  match _h : first bytes with
  | some (n, rest) => (decode rest).map (Char.ofNat n :: ·)
  | none => if bytes = [] then some [] else none
termination_by bytes.length
decreasing_by exact first_length _h

theorem toNat_char (h : n.isValidChar) : (Char.ofNat n).toNat = n := by
  unfold Char.ofNat
  rw [dif_pos h]
  rfl

@[simp] theorem encodeText_nil : encodeText [] = [] := rfl

@[simp] theorem encodeText_cons (c : Char) (s : List Char) :
    encodeText (c :: s) = encode c.toNat ++ encodeText s := rfl

theorem encodeText_append (s t : List Char) :
    encodeText (s ++ t) = encodeText s ++ encodeText t := List.flatMap_append

theorem length_encodeText {s : List Char} (h : s.all fun c => c.toNat < 0x80) :
    (encodeText s).length = s.length := by
  induction s with
  | nil => rfl
  | cons c s ih =>
    rw [List.all_cons, Bool.and_eq_true, decide_eq_true_eq] at h
    rw [encodeText_cons, List.length_append, encode_ascii h.1, ih h.2]
    simp [Nat.add_comm]

theorem decode_nil : decode [] = some [] := by
  rw [decode]
  rfl

theorem decode_of_first (h : first bytes = some (n, rest)) :
    decode bytes = (decode rest).map (Char.ofNat n :: ·) := by
  rw [decode]
  split
  · next m tail h' =>
    rw [h] at h'
    cases h'
    rfl
  · next h' =>
    rw [h] at h'
    cases h'

theorem decode_of_none (h : first bytes = none) (hne : bytes ≠ []) : decode bytes = none := by
  rw [decode]
  split
  · next m tail h' =>
    rw [h] at h'
    cases h'
  · exact if_neg hne

theorem decode_encodeText (s : List Char) : decode (encodeText s) = some s := by
  induction s with
  | nil => exact decode_nil
  | cons c s ih =>
    have hvalid : c.toNat.isValidChar := c.valid
    rw [encodeText_cons, decode_of_first (first_encode hvalid _), ih, Option.map_some,
      Char.ofNat_toNat]

/-- Bytes are read as the text that was written. -/
theorem decode_eq_some {s : List Char} : decode bytes = some s ↔ bytes = encodeText s := by
  refine ⟨fun h => ?_, fun h => h ▸ decode_encodeText s⟩
  induction hlength : bytes.length using Nat.strongRecOn generalizing bytes s with
  | ind length ih =>
    cases hfirst : first bytes with
    | none =>
      by_cases hne : bytes = []
      · subst hne
        rw [decode_nil] at h
        cases h
        rfl
      · rw [decode_of_none hfirst hne] at h
        cases h
    | some p =>
      obtain ⟨n, rest⟩ := p
      obtain ⟨hvalid, rfl⟩ := encode_of_first hfirst
      rw [decode_of_first hfirst] at h
      obtain ⟨t, ht, rfl⟩ := Option.map_eq_some_iff.mp h
      have hless := first_length hfirst
      rw [ih _ (by omega) ht rfl, encodeText_cons, toNat_char hvalid]

theorem encodeText_injective : Function.Injective encodeText := by
  intro s t h
  have := decode_encodeText s
  rw [h, decode_encodeText t] at this
  exact (Option.some.inj this).symm

theorem encodeText_eq_nil {s : List Char} : encodeText s = [] ↔ s = [] := by
  cases s with
  | nil => simp
  | cons c s => simp [encode_ne_nil]

theorem first_encode_char (c : Char) (rest : List UInt8) :
    first (encode c.toNat ++ rest) = some (c.toNat, rest) := first_encode c.valid rest

/-- Bytes that begin a text's and spell characters are those of its beginning. -/
theorem text_of_encodeText_append {p s : List Char} (h : encodeText p ++ ys = encodeText s) :
    ∃ q, s = p ++ q ∧ ys = encodeText q := by
  induction p generalizing s with
  | nil => exact ⟨s, rfl, h⟩
  | cons c p ih =>
    rw [encodeText_cons, List.append_assoc] at h
    cases s with
    | nil =>
      have hnil := (List.append_eq_nil_iff.mp h).1
      exact absurd hnil encode_ne_nil
    | cons d s =>
      have hc := first_encode_char c (encodeText p ++ ys)
      rw [h, encodeText_cons, first_encode_char] at hc
      obtain ⟨hcd, htail⟩ := Prod.mk.inj (Option.some.inj hc)
      obtain ⟨q, rfl, hq⟩ := ih htail.symm
      have hcd : d = c := Char.toNat_inj.mp hcd
      exact ⟨q, by rw [hcd, List.cons_append], hq⟩

/-- An ASCII byte of a text is a character of it, and the bytes before it are a text's. -/
theorem text_of_mem_encodeText {s : List Char} (hb : b.toNat < 0x80)
    (h : encodeText s = xs ++ b :: ys) :
    ∃ p c q, s = p ++ c :: q ∧ c.toNat = b.toNat ∧ xs = encodeText p ∧ ys = encodeText q := by
  have hfollows : follows b = false := by
    rw [Bool.eq_false_iff]
    intro hb'
    have := follows_iff.mp hb'
    omega
  induction s generalizing xs with
  | nil => simp [encodeText] at h
  | cons c s ih =>
    rw [encodeText_cons] at h
    have hfirst := first_encode_char c (encodeText s)
    cases xs with
    | nil =>
      rw [h, List.nil_append, first_ascii hb] at hfirst
      obtain ⟨hc, hs⟩ := Prod.mk.inj (Option.some.inj hfirst)
      exact ⟨[], c, s, rfl, hc.symm, rfl, hs⟩
    | cons x xs =>
      rw [h, first_append hfollows (List.cons_ne_nil x xs)] at hfirst
      obtain ⟨⟨n, rest'⟩, hxs, hn⟩ := Option.map_eq_some_iff.mp hfirst
      have hchar : n = c.toNat := (Prod.mk.inj hn).1
      have hs : rest' ++ b :: ys = encodeText s := (Prod.mk.inj hn).2
      obtain ⟨-, hencode⟩ := encode_of_first hxs
      obtain ⟨p, e, q, rfl, he, hp, hq⟩ := ih hs.symm
      exact ⟨c :: p, e, q, rfl, he, by rw [hencode, hchar, hp, encodeText_cons], hq⟩

/-- An ASCII byte of a text is a character of it. -/
theorem mem_of_mem_encodeText {s : List Char} (hb : b.toNat < 0x80) (h : b ∈ encodeText s) :
    ∃ c ∈ s, c.toNat = b.toNat := by
  obtain ⟨xs, ys, hsplit⟩ := List.append_of_mem h
  obtain ⟨p, c, q, rfl, hc, -⟩ := text_of_mem_encodeText hb hsplit
  exact ⟨c, by simp, hc⟩

/-! ## Bytes that spell no character -/

/-- The code points of bytes, with a lone surrogate for each byte that spells no character. -/
def decodeEscape (bytes : List UInt8) : List Nat :=
  match _h : first bytes with
  | some (n, rest) => n :: decodeEscape rest
  | none =>
    match bytes with
    | [] => []
    | b :: rest => (0xDC00 + b.toNat) :: decodeEscape rest
termination_by bytes.length
decreasing_by
  · exact first_length _h
  · simp

theorem decodeEscape_nil : decodeEscape [] = [] := by
  rw [decodeEscape]
  rfl

theorem decodeEscape_of_first (h : first bytes = some (n, rest)) :
    decodeEscape bytes = n :: decodeEscape rest := by
  rw [decodeEscape]
  split
  · next m tail h' =>
    rw [h] at h'
    cases h'
    rfl
  · next h' =>
    rw [h] at h'
    cases h'

theorem decodeEscape_of_none (h : first (b :: rest) = none) :
    decodeEscape (b :: rest) = (0xDC00 + b.toNat) :: decodeEscape rest := by
  rw [decodeEscape]
  split
  · next m tail h' =>
    rw [h] at h'
    cases h'
  · rfl

theorem decodeEscape_ascii (hb : b.toNat < 0x80) :
    decodeEscape (b :: ys) = b.toNat :: decodeEscape ys :=
  decodeEscape_of_first (first_ascii hb)

/-- A byte that continues no character separates what is before it from what is after it. -/
theorem decodeEscape_append (hb : follows b = false) (xs ys : List UInt8) :
    decodeEscape (xs ++ b :: ys) = decodeEscape xs ++ decodeEscape (b :: ys) := by
  induction hlength : xs.length using Nat.strongRecOn generalizing xs with
  | ind length ih =>
    cases xs with
    | nil => rw [decodeEscape_nil, List.nil_append, List.nil_append]
    | cons x xs =>
      have happend := first_append hb (List.cons_ne_nil x xs) ys
      cases hfirst : first (x :: xs) with
      | some p =>
        obtain ⟨n, rest⟩ := p
        have hless := first_length hfirst
        rw [hfirst, Option.map_some] at happend
        rw [decodeEscape_of_first happend, decodeEscape_of_first hfirst, ih _ (by omega) rest rfl,
          List.cons_append]
      | none =>
        rw [hfirst, Option.map_none] at happend
        have hless : xs.length < length := by
          rw [← hlength, List.length_cons]
          omega
        rw [List.cons_append] at happend
        rw [List.cons_append, decodeEscape_of_none happend, decodeEscape_of_none hfirst,
          ih _ hless xs rfl, List.cons_append]

/-- The bytes of code points, lone surrogates put back. -/
def encodeEscape (codes : List Nat) : List UInt8 :=
  codes.flatMap fun n => if 0xDC80 ≤ n ∧ n < 0xDD00 then [.ofNat (n - 0xDC00)] else encode n

/-- No byte is lost. -/
theorem encodeEscape_decodeEscape (bytes : List UInt8) :
    encodeEscape (decodeEscape bytes) = bytes := by
  induction hlength : bytes.length using Nat.strongRecOn generalizing bytes with
  | ind length ih =>
    cases bytes with
    | nil => rw [decodeEscape_nil]; rfl
    | cons b bytes =>
      cases hfirst : first (b :: bytes) with
      | some p =>
        obtain ⟨n, rest⟩ := p
        have hless := first_length hfirst
        obtain ⟨hvalid, heq⟩ := encode_of_first hfirst
        have hchar : ¬ (0xDC80 ≤ n ∧ n < 0xDD00) := by
          unfold Nat.isValidChar at hvalid
          omega
        have hrest := ih _ (by omega) rest rfl
        rw [decodeEscape_of_first hfirst, heq]
        unfold encodeEscape at hrest ⊢
        rw [List.flatMap_cons, if_neg hchar, hrest]
      | none =>
        have hhigh : 0x80 ≤ b.toNat := by
          by_contra hlow
          rw [first_ascii (by omega)] at hfirst
          cases hfirst
        have hsurrogate : 0xDC80 ≤ 0xDC00 + b.toNat ∧ 0xDC00 + b.toNat < 0xDD00 := by
          have := b.toNat_lt
          omega
        have hless : bytes.length < length := by
          rw [← hlength, List.length_cons]
          omega
        have hrest := ih _ hless bytes rfl
        rw [decodeEscape_of_none hfirst]
        unfold encodeEscape at hrest ⊢
        rw [List.flatMap_cons, if_pos hsurrogate, hrest, ofNat_eq (b := b) (by omega)]
        rfl

theorem decodeEscape_injective : Function.Injective decodeEscape :=
  Function.LeftInverse.injective encodeEscape_decodeEscape

end Lib.Utf8
