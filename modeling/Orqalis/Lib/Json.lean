import Mathlib.Data.List.Basic
import Mathlib.Data.List.Chain

/-!
# JSON text

A document, the text an indenting writer gives it and the reader of such texts. The writer
puts every member and every item on a line of its own, two blanks deeper than what holds
it; the reader takes any white space between tokens.

`loads_dumps` is the round trip. `calm_dumps` says what else a reader of a larger text can
rely on: the text of a document has no carriage return, and none of its lines starts with
a dash.

A number is kept as the text that spells it, so reading one loses nothing.
-/

namespace Lib.Json

/-- The characters that spell numbers. -/
def numeral (c : Char) : Bool := c.isDigit || c ∈ ['-', '+', '.', 'e', 'E']

/-- Digits, one at least, and what follows them. -/
def digits (s : List Char) : Option (List Char) :=
  match s.span Char.isDigit with
  | ([], _) => none
  | (_ :: _, rest) => some rest

/-- The exponent of a number, up to its end. -/
def exponent : List Char → Bool
  | [] => true
  | c :: '+' :: s => (c = 'e' || c = 'E') && digits s = some []
  | c :: '-' :: s => (c = 'e' || c = 'E') && digits s = some []
  | c :: s => (c = 'e' || c = 'E') && digits s = some []

/-- The fraction and the exponent of a number, up to its end. -/
def fraction : List Char → Bool
  | '.' :: s => (digits s).elim false exponent
  | s => exponent s

/-- The number grammar after the sign: no digit follows a leading zero. -/
def unsigned : List Char → Bool
  | '0' :: s => fraction s
  | s => (digits s).elim false fraction

/-- Whether a text spells a number. -/
def spellsNumber : List Char → Bool
  | '-' :: s => unsigned s
  | s => unsigned s

/-- A number, by its spelling. -/
structure Number where
  spelling : List Char
  numerals : spelling.all numeral
  spelled : spellsNumber spelling
deriving DecidableEq

end Lib.Json

namespace Lib

open Json in
/-- A document. The members of an object are in the order they are written. -/
inductive Json where
  | null
  | bool (value : Bool)
  | num (value : Number)
  | str (value : List Char)
  | arr (items : List Json)
  | obj (members : List (List Char × Json))

namespace Json

/-! ## Writing -/

/-- A line break and the indentation of the next line. -/
def newline (depth : Nat) : List Char := '\n' :: List.replicate (2 * depth) ' '

/-- A hexadecimal digit. -/
def hexDigit (n : Nat) : Char := if n < 10 then Char.ofNat (48 + n) else Char.ofNat (87 + n)

/-- A character of a string, escaped where it has to be. -/
def escape (c : Char) : List Char :=
  if c = '"' then ['\\', '"']
  else if c = '\\' then ['\\', '\\']
  else if c = '\n' then ['\\', 'n']
  else if c = '\r' then ['\\', 'r']
  else if c = '\t' then ['\\', 't']
  else if c = '\x0c' then ['\\', 'f']
  else if c = '\x08' then ['\\', 'b']
  else if c.toNat < 32 then
    ['\\', 'u', '0', '0', hexDigit (c.toNat / 16), hexDigit (c.toNat % 16)]
  else [c]

/-- A string between its quotes. -/
def quote (s : List Char) : List Char := '"' :: (s.flatMap escape ++ ['"'])

mutual

/-- The text of a document that starts on a line of the given depth. -/
def dumps (depth : Nat) : Json → List Char
  | null => ['n', 'u', 'l', 'l']
  | bool true => ['t', 'r', 'u', 'e']
  | bool false => ['f', 'a', 'l', 's', 'e']
  | num n => n.spelling
  | str s => quote s
  | arr [] => ['[', ']']
  | arr (v :: vs) =>
    '[' :: (newline (depth + 1) ++ dumps (depth + 1) v ++ dumpsItems (depth + 1) vs ++
      newline depth ++ [']'])
  | obj [] => ['{', '}']
  | obj ((k, v) :: ms) =>
    '{' :: (newline (depth + 1) ++ quote k ++ [':', ' '] ++ dumps (depth + 1) v ++
      dumpsMembers (depth + 1) ms ++ newline depth ++ ['}'])

/-- The items after the first. -/
def dumpsItems (depth : Nat) : List Json → List Char
  | [] => []
  | v :: vs => ',' :: (newline depth ++ dumps depth v ++ dumpsItems depth vs)

/-- The members after the first. -/
def dumpsMembers (depth : Nat) : List (List Char × Json) → List Char
  | [] => []
  | (k, v) :: ms =>
    ',' :: (newline depth ++ quote k ++ [':', ' '] ++ dumps depth v ++ dumpsMembers depth ms)

end

/-! ## Reading -/

/-- The white space between tokens. -/
def blank (c : Char) : Bool := c = ' ' || c = '\t' || c = '\n' || c = '\r'

/-- A text from its first token on. -/
def skip (s : List Char) : List Char := s.dropWhile blank

/-- The value of a hexadecimal digit. -/
def hexValue (c : Char) : Option Nat :=
  if c.isDigit then some (c.toNat - 48)
  else if 'a' ≤ c ∧ c ≤ 'f' then some (c.toNat - 87)
  else if 'A' ≤ c ∧ c ≤ 'F' then some (c.toNat - 55)
  else none

/-- The code unit that four hexadecimal digits name. -/
def codeUnit (a b c d : Char) : Option Nat := do
  let a ← hexValue a
  let b ← hexValue b
  let c ← hexValue c
  let d ← hexValue d
  return ((a * 16 + b) * 16 + c) * 16 + d

/-- A two-character escape. -/
def unescape (c : Char) : Option Char :=
  if c = '"' then some '"'
  else if c = '\\' then some '\\'
  else if c = '/' then some '/'
  else if c = 'n' then some '\n'
  else if c = 'r' then some '\r'
  else if c = 't' then some '\t'
  else if c = 'f' then some '\x0c'
  else if c = 'b' then some '\x08'
  else none

/-- What a string is made of: its characters and the code units it names. -/
def readUnits : List Char → Option (List (Char ⊕ Nat) × List Char)
  | [] => none
  | '"' :: rest => some ([], rest)
  | '\\' :: 'u' :: a :: b :: c :: d :: rest => do
    let unit ← codeUnit a b c d
    let (units, rest) ← readUnits rest
    return (.inr unit :: units, rest)
  | '\\' :: c :: rest => do
    let c ← unescape c
    let (units, rest) ← readUnits rest
    return (.inl c :: units, rest)
  | c :: rest =>
    if c.toNat < 32 then none
    else do
      let (units, rest) ← readUnits rest
      return (.inl c :: units, rest)

/-- The character of a code unit by itself; a surrogate is none. -/
def scalar (unit : Nat) : Option Char :=
  if unit.isValidChar then some (Char.ofNat unit) else none

/-- The characters of a string: two code units may be one character's surrogates. -/
def characters : List (Char ⊕ Nat) → Option (List Char)
  | [] => some []
  | .inl c :: units => (c :: ·) <$> characters units
  | .inr high :: .inr low :: units =>
    if 0xD800 ≤ high ∧ high < 0xDC00 ∧ 0xDC00 ≤ low ∧ low < 0xE000 then
      (Char.ofNat (0x10000 + (high - 0xD800) * 0x400 + (low - 0xDC00)) :: ·) <$> characters units
    else do
      let c ← scalar high
      (c :: ·) <$> characters (.inr low :: units)
  | .inr unit :: units => do
    let c ← scalar unit
    (c :: ·) <$> characters units

/-- A string after its opening quote. -/
def readString (s : List Char) : Option (List Char × List Char) := do
  let (units, rest) ← readUnits s
  let value ← characters units
  return (value, rest)

/-- A number: the longest run of the characters that spell numbers. -/
def readNumber (s : List Char) : Option (Json × List Char) :=
  let spelling := s.takeWhile numeral
  if h : spellsNumber spelling then
    some (num ⟨spelling, List.all_takeWhile, h⟩, s.dropWhile numeral)
  else none

mutual

/-- The document a text starts with, and the text after it. -/
def readValue : Nat → List Char → Option (Json × List Char)
  | 0, _ => none
  | fuel + 1, s =>
    match s with
    | 'n' :: 'u' :: 'l' :: 'l' :: rest => some (null, rest)
    | 't' :: 'r' :: 'u' :: 'e' :: rest => some (bool true, rest)
    | 'f' :: 'a' :: 'l' :: 's' :: 'e' :: rest => some (bool false, rest)
    | '"' :: rest => (readString rest).map fun (value, rest) => (str value, rest)
    | '[' :: rest =>
      match skip rest with
      | ']' :: rest => some (arr [], rest)
      | rest => do
        let (v, rest) ← readValue fuel rest
        let (vs, rest) ← readItems fuel (skip rest)
        return (arr (v :: vs), rest)
    | '{' :: rest =>
      match skip rest with
      | '}' :: rest => some (obj [], rest)
      | rest => do
        let (m, rest) ← readMember fuel rest
        let (ms, rest) ← readMembers fuel (skip rest)
        return (obj (m :: ms), rest)
    | s => readNumber s

/-- The items after the first, up to the bracket. -/
def readItems : Nat → List Char → Option (List Json × List Char)
  | 0, _ => none
  | fuel + 1, s =>
    match s with
    | ']' :: rest => some ([], rest)
    | ',' :: rest => do
      let (v, rest) ← readValue fuel (skip rest)
      let (vs, rest) ← readItems fuel (skip rest)
      return (v :: vs, rest)
    | _ => none

/-- A member: its key, a colon and its value. -/
def readMember : Nat → List Char → Option ((List Char × Json) × List Char)
  | 0, _ => none
  | fuel + 1, s =>
    match s with
    | '"' :: rest => do
      let (key, rest) ← readString rest
      match skip rest with
      | ':' :: rest => do
        let (v, rest) ← readValue fuel (skip rest)
        return ((key, v), rest)
      | _ => none
    | _ => none

/-- The members after the first, up to the brace. -/
def readMembers : Nat → List Char → Option (List (List Char × Json) × List Char)
  | 0, _ => none
  | fuel + 1, s =>
    match s with
    | '}' :: rest => some ([], rest)
    | ',' :: rest => do
      let (m, rest) ← readMember fuel (skip rest)
      let (ms, rest) ← readMembers fuel (skip rest)
      return (m :: ms, rest)
    | _ => none

end

/-- The document a whole text holds. -/
def loads (s : List Char) : Option Json := do
  let (v, rest) ← readValue (s.length + 1) (skip s)
  if skip rest = [] then some v else none

/-! ## The round trip -/

/-- A character as its own escape leaves it to the reader. -/
def unitOf (c : Char) : Char ⊕ Nat :=
  if c.toNat < 32 ∧ c ∉ ['\n', '\r', '\t', '\x0c', '\x08'] then .inr c.toNat else .inl c

theorem hexValue_hexDigit : ∀ n < 16, hexValue (hexDigit n) = some n := by decide

theorem codeUnit_control {n : Nat} (h : n < 32) :
    codeUnit '0' '0' (hexDigit (n / 16)) (hexDigit (n % 16)) = some n := by
  have hzero : hexValue '0' = some 0 := by decide
  simp only [codeUnit, hzero, hexValue_hexDigit (n / 16) (by omega),
    hexValue_hexDigit (n % 16) (by omega), Option.pure_def, Option.bind_eq_bind, Option.bind_some,
    Option.some.injEq]
  omega

theorem readUnits_escape (c : Char) (s : List Char) :
    readUnits (escape c ++ s) = (readUnits s).map fun p => (unitOf c :: p.1, p.2) := by
  by_cases hquote : c = '"'
  · subst hquote
    cases h : readUnits s <;> simp [escape, readUnits, unescape, unitOf, h]
  by_cases hslash : c = '\\'
  · subst hslash
    cases h : readUnits s <;> simp [escape, readUnits, unescape, unitOf, h]
  by_cases hnamed : c ∈ ['\n', '\r', '\t', '\x0c', '\x08']
  · simp only [List.mem_cons, List.not_mem_nil, or_false] at hnamed
    rcases hnamed with rfl | rfl | rfl | rfl | rfl <;>
      cases h : readUnits s <;> simp [escape, readUnits, unescape, unitOf, h]
  have hothers := hnamed
  simp only [List.mem_cons, List.not_mem_nil, or_false, not_or] at hothers
  obtain ⟨hn, hr, ht, hf, hb⟩ := hothers
  by_cases hcontrol : c.toNat < 32
  · have hunit : unitOf c = .inr c.toNat := if_pos ⟨hcontrol, hnamed⟩
    simp only [escape, hquote, hslash, hn, hr, ht, hf, hb, hcontrol, if_false, if_true,
      List.cons_append, List.nil_append, readUnits, codeUnit_control hcontrol, hunit]
    cases readUnits s <;> simp
  · have hunit : unitOf c = .inl c := if_neg fun h => hcontrol h.1
    simp only [escape, hquote, hslash, hn, hr, ht, hf, hb, hcontrol, if_false,
      List.cons_append, List.nil_append, hunit]
    rw [readUnits]
    · simp only [hcontrol, if_false]
      cases readUnits s <;> simp
    all_goals simp_all

theorem characters_unitOf (s : List Char) : characters (s.map unitOf) = some s := by
  induction s with
  | nil => rfl
  | cons c s ih =>
    by_cases hcontrol : c.toNat < 32 ∧ c ∉ ['\n', '\r', '\t', '\x0c', '\x08']
    · have hunit : unitOf c = .inr c.toNat := if_pos hcontrol
      have hscalar : scalar c.toNat = some c := by
        rw [scalar, if_pos (.inl (by omega)), Char.ofNat_toNat]
      rw [List.map_cons, hunit]
      -- A control character's code unit starts no surrogate pair.
      cases s with
      | nil => simp [characters, hscalar]
      | cons d s =>
        rw [List.map_cons] at ih ⊢
        cases hd : unitOf d with
        | inl e =>
          rw [hd] at ih
          simp [characters, hscalar] at ih ⊢
          simp [ih]
        | inr low =>
          rw [hd] at ih
          rw [characters, if_neg (by omega), ih]
          simp [hscalar]
    · have hunit : unitOf c = .inl c := if_neg hcontrol
      rw [List.map_cons, hunit, characters, ih]
      rfl

theorem readString_quote (s rest : List Char) :
    readString (s.flatMap escape ++ '"' :: rest) = some (s, rest) := by
  have hunits : readUnits (s.flatMap escape ++ '"' :: rest) = some (s.map unitOf, rest) := by
    induction s with
    | nil => rfl
    | cons c s ih =>
      rw [List.flatMap_cons, List.append_assoc, readUnits_escape, ih]
      rfl
  simp [readString, hunits, characters_unitOf]

/-- Nothing of a text continues a number that stands before it. -/
def Ends (rest : List Char) : Prop := ∀ c s, rest = c :: s → numeral c = false

theorem ends_cons {c : Char} {s : List Char} (h : numeral c = false) : Ends (c :: s) := by
  rintro c' s' ⟨rfl, rfl⟩
  exact h

theorem ends_nil : Ends [] := by
  rintro c s ⟨⟩

theorem readNumber_spelling (n : Number) {rest : List Char} (h : Ends rest) :
    readNumber (n.spelling ++ rest) = some (num n, rest) := by
  have hall : ∀ c ∈ n.spelling, numeral c = true := List.all_eq_true.mp n.numerals
  have hrest : rest.takeWhile numeral = [] ∧ rest.dropWhile numeral = rest := by
    cases rest with
    | nil => exact ⟨rfl, rfl⟩
    | cons c s => simp [h c s rfl]
  have htake : (n.spelling ++ rest).takeWhile numeral = n.spelling := by
    rw [List.takeWhile_append_of_pos hall, hrest.1, List.append_nil]
  have hdrop : (n.spelling ++ rest).dropWhile numeral = rest := by
    rw [List.dropWhile_append_of_pos hall, hrest.2]
  unfold readNumber
  simp only [htake, hdrop, n.spelled, dite_true]

theorem spelling_cons (n : Number) : ∃ c s, n.spelling = c :: s ∧ numeral c = true := by
  have hall : ∀ c ∈ n.spelling, numeral c = true := List.all_eq_true.mp n.numerals
  cases hn : n.spelling with
  | nil =>
    have hspelled := n.spelled
    rw [hn] at hspelled
    exact absurd hspelled (by decide)
  | cons c s => exact ⟨c, s, rfl, hall c (by simp [hn])⟩

/-- The first character of a document's text is no white space and closes nothing. -/
theorem dumps_cons (depth : Nat) (v : Json) :
    ∃ c s, dumps depth v = c :: s ∧ blank c = false ∧ c ≠ ']' := by
  cases v with
  | null => exact ⟨'n', _, by simp only [dumps]; rfl, by decide, by decide⟩
  | bool b =>
    cases b
    · exact ⟨'f', _, by simp only [dumps]; rfl, by decide, by decide⟩
    · exact ⟨'t', _, by simp only [dumps]; rfl, by decide, by decide⟩
  | str s => exact ⟨'"', _, by simp only [dumps]; rfl, by decide, by decide⟩
  | num n =>
    obtain ⟨c, s, hs, hc⟩ := spelling_cons n
    refine ⟨c, s, by simp only [dumps, hs], ?_, ?_⟩
    · rw [Bool.eq_false_iff]
      intro hblank
      simp only [blank, Bool.or_eq_true, decide_eq_true_eq] at hblank
      rcases hblank with ((rfl | rfl) | rfl) | rfl <;> exact absurd hc (by decide)
    · rintro rfl
      exact absurd hc (by decide)
  | arr vs =>
    cases vs
    · exact ⟨'[', _, by simp only [dumps]; rfl, by decide, by decide⟩
    · exact ⟨'[', _, by simp only [dumps]; rfl, by decide, by decide⟩
  | obj ms =>
    cases ms
    · exact ⟨'{', _, by simp only [dumps]; rfl, by decide, by decide⟩
    · exact ⟨'{', _, by simp only [dumps]; rfl, by decide, by decide⟩

theorem skip_newline (depth : Nat) (s : List Char) : skip (newline depth ++ s) = skip s := by
  unfold skip newline
  apply List.dropWhile_append_of_pos
  intro c hc
  rcases List.mem_cons.mp hc with rfl | hc
  · rfl
  · rw [List.eq_of_mem_replicate hc]
    rfl

theorem skip_cons {c : Char} (s : List Char) (h : blank c = false) : skip (c :: s) = c :: s := by
  simp [skip, h]

theorem skip_dumps (depth : Nat) (v : Json) (s : List Char) :
    skip (dumps depth v ++ s) = dumps depth v ++ s := by
  obtain ⟨c, t, ht, hc, -⟩ := dumps_cons depth v
  rw [ht, List.cons_append, skip_cons _ hc]

/-- A member as it is written: its key, a colon and its value. -/
def dumpsMember (depth : Nat) (m : List Char × Json) : List Char :=
  quote m.1 ++ [':', ' '] ++ dumps depth m.2

theorem dumpsMember_cons (depth : Nat) (m : List Char × Json) :
    dumpsMember depth m = '"' :: (m.1.flatMap escape ++ ['"', ':', ' '] ++ dumps depth m.2) := by
  simp [dumpsMember, quote]

theorem skip_dumpsMember (depth : Nat) (m : List Char × Json) (s : List Char) :
    skip (dumpsMember depth m ++ s) = dumpsMember depth m ++ s := by
  rw [dumpsMember_cons, List.cons_append, skip_cons _ (by decide)]

theorem ends_newline (depth : Nat) (s : List Char) : Ends (newline depth ++ s) :=
  ends_cons (by decide)

theorem ends_items {depth : Nat} {vs : List Json} {s : List Char} (h : Ends s) :
    Ends (dumpsItems depth vs ++ s) := by
  cases vs with
  | nil => simpa [dumpsItems] using h
  | cons v vs =>
    simp only [dumpsItems]
    exact ends_cons (by decide)

theorem ends_members {depth : Nat} {ms : List (List Char × Json)} {s : List Char} (h : Ends s) :
    Ends (dumpsMembers depth ms ++ s) := by
  cases ms with
  | nil => simpa [dumpsMembers] using h
  | cons m ms =>
    obtain ⟨k, v⟩ := m
    simp only [dumpsMembers]
    exact ends_cons (by decide)

mutual

theorem readValue_dumps : ∀ (v : Json) (depth fuel : Nat) (rest : List Char),
    (dumps depth v).length ≤ fuel → Ends rest →
      readValue fuel (dumps depth v ++ rest) = some (v, rest)
  | null, depth, fuel + 1, rest, _, _ => by simp [dumps, readValue]
  | bool true, depth, fuel + 1, rest, _, _ => by simp [dumps, readValue]
  | bool false, depth, fuel + 1, rest, _, _ => by simp [dumps, readValue]
  | str s, depth, fuel + 1, rest, _, _ => by
    simp [dumps, quote, readValue, readString_quote]
  | num n, depth, fuel + 1, rest, _, hrest => by
    obtain ⟨c, s, hs, hc⟩ := spelling_cons n
    have hread := readNumber_spelling n hrest
    simp only [dumps, hs, List.cons_append] at hread ⊢
    rw [readValue]
    · exact hread
    all_goals
      intro t ht
      injection ht with hchar
      rw [hchar] at hc
      exact absurd hc (by decide)
  | arr [], depth, fuel + 1, rest, _, _ => by simp [dumps, readValue, skip, blank]
  | arr (v :: vs), depth, fuel + 1, rest, hfuel, _ => by
    have hcons : dumps depth (arr (v :: vs)) ++ rest =
        '[' :: (newline (depth + 1) ++ (dumps (depth + 1) v ++
          (dumpsItems (depth + 1) vs ++ (newline depth ++ ']' :: rest)))) := by
      simp [dumps]
    simp only [dumps, List.length_cons, List.length_append] at hfuel
    obtain ⟨c, s, hs, -, hc⟩ := dumps_cons (depth + 1) v
    have hv := readValue_dumps v (depth + 1) fuel
      (dumpsItems (depth + 1) vs ++ (newline depth ++ ']' :: rest)) (by omega)
      (ends_items (ends_newline _ _))
    rw [hcons]
    simp only [readValue, skip_newline, skip_dumps]
    rw [hs, List.cons_append] at hv ⊢
    split
    · rename_i h
      injection h with hchar
      exact absurd hchar hc
    · simp only [hv, readItems_dumps vs (depth + 1) depth fuel rest (by omega),
        Option.bind_eq_bind, Option.bind_some, Option.pure_def]
  | obj [], depth, fuel + 1, rest, _, _ => by simp [dumps, readValue, skip, blank]
  | obj ((k, v) :: ms), depth, fuel + 1, rest, hfuel, _ => by
    have hcons : dumps depth (obj ((k, v) :: ms)) ++ rest =
        '{' :: (newline (depth + 1) ++ (dumpsMember (depth + 1) (k, v) ++
          (dumpsMembers (depth + 1) ms ++ (newline depth ++ '}' :: rest)))) := by
      simp [dumps, dumpsMember]
    simp only [dumps, List.length_cons, List.length_append] at hfuel
    have hm := readMember_dumps (k, v) (depth + 1) fuel
      (dumpsMembers (depth + 1) ms ++ (newline depth ++ '}' :: rest))
      (by simp only [dumpsMember, List.length_append, List.length_cons]; omega)
      (ends_members (ends_newline _ _))
    rw [hcons]
    simp only [readValue, skip_newline, skip_dumpsMember]
    rw [dumpsMember_cons, List.cons_append] at hm ⊢
    split
    · rename_i h
      injection h with hchar
      exact absurd hchar (by decide)
    · simp only [hm, readMembers_dumps ms (depth + 1) depth fuel rest (by omega),
        Option.bind_eq_bind, Option.bind_some, Option.pure_def]
  | v, depth, 0, rest, hfuel, _ => by
    obtain ⟨c, s, hs, -⟩ := dumps_cons depth v
    simp [hs] at hfuel

theorem readItems_dumps : ∀ (vs : List Json) (depth d fuel : Nat) (rest : List Char),
    (dumpsItems depth vs).length < fuel →
      readItems fuel (skip (dumpsItems depth vs ++ (newline d ++ ']' :: rest))) = some (vs, rest)
  | [], depth, d, fuel + 1, rest, _ => by
    simp [dumpsItems, skip_newline, skip_cons, blank, readItems]
  | v :: vs, depth, d, fuel + 1, rest, hfuel => by
    have hcons : dumpsItems depth (v :: vs) ++ (newline d ++ ']' :: rest) =
        ',' :: (newline depth ++ (dumps depth v ++
          (dumpsItems depth vs ++ (newline d ++ ']' :: rest)))) := by
      simp [dumpsItems]
    simp only [dumpsItems, List.length_cons, List.length_append] at hfuel
    rw [hcons, skip_cons _ (by decide)]
    simp only [readItems, skip_newline, skip_dumps]
    rw [readValue_dumps v depth fuel _ (by omega) (ends_items (ends_newline _ _))]
    simp [readItems_dumps vs depth d fuel rest (by omega)]

theorem readMember_dumps : ∀ (m : List Char × Json) (depth fuel : Nat) (rest : List Char),
    (dumpsMember depth m).length ≤ fuel → Ends rest →
      readMember fuel (dumpsMember depth m ++ rest) = some (m, rest)
  | (k, v), depth, fuel + 1, rest, hfuel, hrest => by
    have hcons : dumpsMember depth (k, v) ++ rest =
        '"' :: (k.flatMap escape ++ '"' :: ':' :: ' ' :: (dumps depth v ++ rest)) := by
      simp [dumpsMember, quote]
    simp only [dumpsMember, quote, List.length_append, List.length_cons] at hfuel
    rw [hcons]
    have hblank : skip (' ' :: (dumps depth v ++ rest)) = dumps depth v ++ rest :=
      skip_dumps depth v rest
    simp only [readMember, readString_quote, Option.bind_eq_bind, Option.bind_some,
      skip_cons _ (show blank ':' = false by decide), hblank,
      readValue_dumps v depth fuel rest (by omega) hrest, Option.pure_def]
  | (k, v), depth, 0, rest, hfuel, _ => by
    simp [dumpsMember, quote] at hfuel

theorem readMembers_dumps : ∀ (ms : List (List Char × Json)) (depth d fuel : Nat)
    (rest : List Char), (dumpsMembers depth ms).length < fuel →
      readMembers fuel (skip (dumpsMembers depth ms ++ (newline d ++ '}' :: rest))) =
        some (ms, rest)
  | [], depth, d, fuel + 1, rest, _ => by
    simp [dumpsMembers, skip_newline, skip_cons, blank, readMembers]
  | (k, v) :: ms, depth, d, fuel + 1, rest, hfuel => by
    have hcons : dumpsMembers depth ((k, v) :: ms) ++ (newline d ++ '}' :: rest) =
        ',' :: (newline depth ++ (dumpsMember depth (k, v) ++
          (dumpsMembers depth ms ++ (newline d ++ '}' :: rest)))) := by
      simp [dumpsMembers, dumpsMember]
    simp only [dumpsMembers, List.length_cons, List.length_append] at hfuel
    rw [hcons, skip_cons _ (by decide)]
    simp only [readMembers, skip_newline, skip_dumpsMember]
    rw [readMember_dumps (k, v) depth fuel _
      (by simp only [dumpsMember, List.length_append, List.length_cons]; omega)
      (ends_members (ends_newline _ _))]
    simp [readMembers_dumps ms depth d fuel rest (by omega)]

end

/-- What was written is read back. -/
theorem loads_dumps (v : Json) : loads (dumps 0 v) = some v := by
  have hskip : skip (dumps 0 v) = dumps 0 v := by simpa using skip_dumps 0 v []
  have hread := readValue_dumps v 0 ((dumps 0 v).length + 1) [] (by omega) ends_nil
  have hend : skip [] = [] := rfl
  rw [List.append_nil] at hread
  simp [loads, hskip, hread, hend]

/-! ## Lines -/

/-- No carriage return, no line that starts with a dash, and no line break at the end. -/
def Calm (s : List Char) : Prop :=
  '\r' ∉ s ∧ s.IsChain (fun c d => c = '\n' → d ≠ '-') ∧ s.getLast? ≠ some '\n'

theorem Calm.append {s t : List Char} (hs : Calm s) (ht : Calm t) : Calm (s ++ t) := by
  obtain ⟨hreturn, hchain, hlast⟩ := hs
  obtain ⟨hreturn', hchain', hlast'⟩ := ht
  refine ⟨by simp [hreturn, hreturn'], ?_, ?_⟩
  · refine List.isChain_append.mpr ⟨hchain, hchain', ?_⟩
    rintro c hc d - rfl
    exact absurd hc hlast
  · rw [List.getLast?_append]
    cases h : t.getLast? with
    | none => simpa [h] using hlast
    | some c => simpa [h] using hlast'

/-- A text on one line is calm. -/
theorem calm_of_line {s : List Char} (h : ∀ c ∈ s, c ≠ '\n' ∧ c ≠ '\r') : Calm s := by
  refine ⟨fun hr => (h _ hr).2 rfl, ?_, fun hn => (h _ (List.mem_of_getLast? hn)).1 rfl⟩
  induction s with
  | nil => exact .nil
  | cons c s ih =>
    refine List.isChain_cons.mpr ⟨?_, ih fun d hd => h d (List.mem_cons_of_mem _ hd)⟩
    rintro d - rfl
    exact absurd rfl (h _ List.mem_cons_self).1

/-- The start of an indented line. -/
theorem calm_newline (depth : Nat) : Calm (newline (depth + 1)) := by
  have hblanks : Calm (List.replicate (2 * depth + 1) ' ' ++ [' ']) :=
    calm_of_line fun d hd => by
      rcases List.mem_append.mp hd with hd | hd
      · rw [List.eq_of_mem_replicate hd]
        decide
      · rw [List.mem_singleton.mp hd]
        decide
  have heq : newline (depth + 1) = '\n' :: ' ' :: List.replicate (2 * depth + 1) ' ' := rfl
  rw [← List.replicate_succ', List.replicate_succ] at hblanks
  obtain ⟨-, hchain, hlast⟩ := hblanks
  rw [heq]
  refine ⟨by simp, List.isChain_cons_cons.mpr ⟨?_, hchain⟩, ?_⟩
  · rintro -
    decide
  · simpa [List.getLast?_cons] using hlast

/-- The line that closes what a line of the given depth opened. -/
theorem calm_close (depth : Nat) {c : Char} (hc : c = ']' ∨ c = '}') :
    Calm (newline depth ++ [c]) := by
  cases depth with
  | succ depth =>
    refine (calm_newline depth).append (calm_of_line fun d hd => ?_)
    rw [List.mem_singleton.mp hd]
    rcases hc with rfl | rfl <;> decide
  | zero => rcases hc with rfl | rfl <;> refine ⟨by decide, ?_, by decide⟩ <;>
      simp [newline]

theorem escape_line (c d : Char) (h : d ∈ escape c) : d ≠ '\n' ∧ d ≠ '\r' := by
  have hhex : ∀ n < 16, hexDigit n ≠ '\n' ∧ hexDigit n ≠ '\r' := by decide
  unfold escape at h
  split_ifs at h with _ _ hn hr _ _ _ hcontrol
  all_goals simp only [List.mem_cons, List.not_mem_nil, or_false] at h
  on_goal 9 =>
    subst h
    exact ⟨hn, hr⟩
  on_goal 8 =>
    rcases h with rfl | rfl | rfl | rfl | rfl | rfl
    iterate 4 decide
    · exact hhex _ (by omega)
    · exact hhex _ (by omega)
  all_goals rcases h with rfl | rfl <;> decide

theorem calm_quote (s : List Char) : Calm (quote s) := by
  refine calm_of_line fun c hc => ?_
  simp only [quote, List.mem_cons, List.mem_append, List.mem_flatMap, List.not_mem_nil,
    or_false] at hc
  rcases hc with rfl | ⟨d, -, hd⟩ | rfl
  · decide
  · exact escape_line d c hd
  · decide

mutual

/-- The text of a document has no carriage return and no line that starts with a dash. -/
theorem calm_dumps : ∀ (depth : Nat) (v : Json), Calm (dumps depth v)
  | depth, null => calm_of_line (by simp [dumps])
  | depth, bool true => calm_of_line (by simp [dumps])
  | depth, bool false => calm_of_line (by simp [dumps])
  | depth, num n => by
    refine calm_of_line fun c hc => ?_
    have hnumeral := List.all_eq_true.mp n.numerals c (by simpa [dumps] using hc)
    constructor <;> rintro rfl <;> exact absurd hnumeral (by decide)
  | depth, str s => by
    simpa [dumps] using calm_quote s
  | depth, arr [] => calm_of_line (by simp [dumps])
  | depth, obj [] => calm_of_line (by simp [dumps])
  | depth, arr (v :: vs) => by
    have hopen : Calm ['['] := calm_of_line (by simp)
    have hall := hopen.append ((((calm_newline depth).append (calm_dumps (depth + 1) v)).append
      (calm_dumpsItems depth vs)).append (calm_close depth (.inl rfl)))
    simpa [dumps] using hall
  | depth, obj ((k, v) :: ms) => by
    have hopen : Calm ['{'] := calm_of_line (by simp)
    have hcolon : Calm [':', ' '] := calm_of_line (by simp)
    have hall := hopen.append (((((calm_newline depth).append (calm_quote k)).append
      (hcolon.append (calm_dumps (depth + 1) v))).append
      (calm_dumpsMembers depth ms)).append (calm_close depth (.inr rfl)))
    simpa [dumps] using hall

theorem calm_dumpsItems : ∀ (depth : Nat) (vs : List Json), Calm (dumpsItems (depth + 1) vs)
  | depth, [] => calm_of_line (by simp [dumpsItems])
  | depth, v :: vs => by
    have hcomma : Calm [','] := calm_of_line (by simp)
    have hall := hcomma.append (((calm_newline depth).append (calm_dumps (depth + 1) v)).append
      (calm_dumpsItems depth vs))
    simpa [dumpsItems] using hall

theorem calm_dumpsMembers : ∀ (depth : Nat) (ms : List (List Char × Json)),
    Calm (dumpsMembers (depth + 1) ms)
  | depth, [] => calm_of_line (by simp [dumpsMembers])
  | depth, (k, v) :: ms => by
    have hcomma : Calm [','] := calm_of_line (by simp)
    have hcolon : Calm [':', ' '] := calm_of_line (by simp)
    have hall := hcomma.append ((((calm_newline depth).append (calm_quote k)).append
      (hcolon.append (calm_dumps (depth + 1) v))).append (calm_dumpsMembers depth ms))
    simpa [dumpsMembers] using hall

end

end Json

end Lib
