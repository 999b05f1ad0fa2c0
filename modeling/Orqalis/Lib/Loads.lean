import Mathlib.Data.List.Lex
import Mathlib.Data.List.Sort
import Orqalis.Lib.Compact

/-!
# JSON values

What a reader makes of a JSON text: whole numbers and floating point numbers, and strings of code
points, where an escape may leave a surrogate by itself. The writer is narrower, since a surrogate
has no bytes and an infinite number no spelling; what it writes is read back with the keys sorted
(`parseText_spell`), and what was read can be written where none of the text's tokens is one of
these (`writable_iff_tokens`).

Floating point numbers are a parameter: how one is read of its spelling and, if it is finite,
spelled again.
-/

namespace Lib

namespace Json

/-- Whether a number has a fraction or an exponent. -/
def Number.fractional (n : Number) : Bool := n.spelling.any fun c => c = '.' || c = 'e' || c = 'E'

/-- The whole number that digits spell. -/
def whole : List Char → Int
  | '-' :: digits => -(Nat.ofDigitChars 10 digits 0 : Nat)
  | digits => (Nat.ofDigitChars 10 digits 0 : Nat)

/-- The spelling of a whole number. -/
def wholeSpelling : Int → List Char
  | .ofNat n => Nat.toDigits 10 n
  | .negSucc n => '-' :: Nat.toDigits 10 (n + 1)

theorem toDigits_cons (n : Nat) : ∃ c cs, Nat.toDigits 10 n = c :: cs ∧ c.isDigit := by
  cases h : Nat.toDigits 10 n with
  | nil => exact absurd h Nat.toDigits_ne_nil
  | cons c cs =>
    have hmem : c ∈ Nat.toDigits 10 n := h ▸ List.mem_cons_self
    exact ⟨c, cs, rfl, Nat.isDigit_of_mem_toDigits (by decide) (by decide) hmem⟩

theorem numerals_wholeSpelling (n : Int) : (wholeSpelling n).all numeral = true := by
  cases n with
  | ofNat n => exact numerals_toDigits n
  | negSucc n =>
    have hsign : numeral '-' = true := by decide
    rw [wholeSpelling, List.all_cons, hsign, numerals_toDigits]
    rfl

theorem spellsNumber_wholeSpelling (n : Int) : spellsNumber (wholeSpelling n) = true := by
  cases n with
  | ofNat n => exact spellsNumber_toDigits n
  | negSucc n =>
    obtain ⟨c, cs, hdigits, hc⟩ := toDigits_cons (n + 1)
    have hsign : c ≠ '-' := by
      rintro rfl
      exact absurd hc (by decide)
    have hspelled := spellsNumber_toDigits (n + 1)
    rw [hdigits, spellsNumber.eq_2 _ fun _ h => hsign (List.cons.inj h).1] at hspelled
    rw [wholeSpelling, hdigits, spellsNumber]
    exact hspelled

/-- A whole number. -/
def wholeNumber (n : Int) : Number :=
  ⟨wholeSpelling n, numerals_wholeSpelling n, spellsNumber_wholeSpelling n⟩

theorem whole_wholeNumber (n : Int) : whole (wholeNumber n).spelling = n := by
  cases n with
  | ofNat n =>
    obtain ⟨c, cs, hdigits, hc⟩ := toDigits_cons n
    have hsign : c ≠ '-' := by
      rintro rfl
      exact absurd hc (by decide)
    have hread : Nat.ofDigitChars 10 (c :: cs) 0 = n := by
      rw [← hdigits]
      exact Nat.ofDigitChars_ten_toDigits
    show whole (Nat.toDigits 10 n) = _
    rw [hdigits, whole.eq_2 _ fun _ h => hsign (List.cons.inj h).1, hread]
    rfl
  | negSucc n =>
    show whole ('-' :: Nat.toDigits 10 (n + 1)) = _
    rw [whole, Nat.ofDigitChars_ten_toDigits]
    rfl

theorem not_fractional_wholeNumber (n : Int) : (wholeNumber n).fractional = false := by
  have hdigit : ∀ c : Char, c.isDigit → (c = '.' || c = 'e' || c = 'E') = false := by
    intro c hc
    have hpoint : c ≠ '.' := fun h => absurd (h ▸ hc) (by decide)
    have hsmall : c ≠ 'e' := fun h => absurd (h ▸ hc) (by decide)
    have hlarge : c ≠ 'E' := fun h => absurd (h ▸ hc) (by decide)
    simp [hpoint, hsmall, hlarge]
  have hdigits (m : Nat) :
      ((Nat.toDigits 10 m).any fun c => c = '.' || c = 'e' || c = 'E') = false := by
    rw [List.any_eq_false]
    intro c hc
    rw [hdigit c (Nat.isDigit_of_mem_toDigits (by decide) (by decide) hc)]
    decide
  cases n with
  | ofNat n => exact hdigits n
  | negSucc n =>
    show (('-' :: Nat.toDigits 10 (n + 1)).any fun c => c = '.' || c = 'e' || c = 'E') = false
    rw [List.any_cons, hdigits]
    decide

end Json

open Json in
/-- Floating point numbers: what one reads of a spelling, and how a finite one is spelled. -/
structure Floats (F : Type) where
  read : Number → F
  write : F → Option Number
  fractional : ∀ x n, write x = some n → n.fractional
  exact : ∀ x n, write x = some n → read n = x

/-- A value. The strings are code points, surrogates among them. -/
inductive Value (F : Type) where
  | null
  | bool (b : Bool)
  | int (n : Int)
  | float (x : F)
  | str (s : List Nat)
  | arr (items : List (Value F))
  | obj (members : List (List Nat × Value F))

namespace Value

open Json

variable {F : Type} (floats : Floats F)

/-! ## Reading -/

/-- The code points of a string: two code units may be one character's surrogates. -/
def codePoints : List (Char ⊕ Nat) → List Nat
  | [] => []
  | .inl c :: units => c.toNat :: codePoints units
  | .inr high :: .inr low :: units =>
    if 0xD800 ≤ high ∧ high < 0xDC00 ∧ 0xDC00 ≤ low ∧ low < 0xE000 then
      (0x10000 + (high - 0xD800) * 0x400 + (low - 0xDC00)) :: codePoints units
    else high :: codePoints (.inr low :: units)
  | .inr unit :: units => unit :: codePoints units

/-- A string after its opening quote. -/
def parseString (s : List Char) : Option (List Nat × List Char) :=
  (readUnits s).map fun p => (codePoints p.1, p.2)

/-- A number: the longest run of the characters that spell numbers. -/
def parseNumber (s : List Char) : Option (Number × List Char) :=
  if h : spellsNumber (s.takeWhile numeral) then
    some (⟨s.takeWhile numeral, List.all_takeWhile, h⟩, s.dropWhile numeral)
  else none

/-- A number as a value. -/
def ofNumber (n : Number) : Value F :=
  if n.fractional then float (floats.read n) else int (whole n.spelling)

mutual

/-- The value a text starts with, and the text after it. -/
def parse : Nat → List Char → Option (Value F × List Char)
  | 0, _ => none
  | fuel + 1, s =>
    match s with
    | 'n' :: 'u' :: 'l' :: 'l' :: rest => some (null, rest)
    | 't' :: 'r' :: 'u' :: 'e' :: rest => some (bool true, rest)
    | 'f' :: 'a' :: 'l' :: 's' :: 'e' :: rest => some (bool false, rest)
    | '"' :: rest => (parseString rest).map fun p => (str p.1, p.2)
    | '[' :: rest =>
      match skip rest with
      | ']' :: rest => some (arr [], rest)
      | rest => do
        let (v, rest) ← parse fuel rest
        let (vs, rest) ← parseItems fuel (skip rest)
        return (arr (v :: vs), rest)
    | '{' :: rest =>
      match skip rest with
      | '}' :: rest => some (obj [], rest)
      | rest => do
        let (m, rest) ← parseMember fuel rest
        let (ms, rest) ← parseMembers fuel (skip rest)
        return (obj (m :: ms), rest)
    | s => (parseNumber s).map fun p => (ofNumber floats p.1, p.2)

/-- The items after the first, up to the bracket. -/
def parseItems : Nat → List Char → Option (List (Value F) × List Char)
  | 0, _ => none
  | fuel + 1, s =>
    match s with
    | ']' :: rest => some ([], rest)
    | ',' :: rest => do
      let (v, rest) ← parse fuel (skip rest)
      let (vs, rest) ← parseItems fuel (skip rest)
      return (v :: vs, rest)
    | _ => none

/-- A member: its key, a colon and its value. -/
def parseMember : Nat → List Char → Option ((List Nat × Value F) × List Char)
  | 0, _ => none
  | fuel + 1, s =>
    match s with
    | '"' :: rest => do
      let (key, rest) ← parseString rest
      match skip rest with
      | ':' :: rest => do
        let (v, rest) ← parse fuel (skip rest)
        return ((key, v), rest)
      | _ => none
    | _ => none

/-- The members after the first, up to the brace. -/
def parseMembers : Nat → List Char → Option (List (List Nat × Value F) × List Char)
  | 0, _ => none
  | fuel + 1, s =>
    match s with
    | '}' :: rest => some ([], rest)
    | ',' :: rest => do
      let (m, rest) ← parseMember fuel (skip rest)
      let (ms, rest) ← parseMembers fuel (skip rest)
      return (m :: ms, rest)
    | _ => none

end

/-- The value a whole text holds. -/
def parseText (s : List Char) : Option (Value F) := do
  let (v, rest) ← parse floats (s.length + 1) (skip s)
  if skip rest = [] then some v else none

/-! ## Documents as values -/

mutual

/-- A document as a value. -/
def ofJson : Json → Value F
  | .null => null
  | .bool b => bool b
  | .num n => ofNumber floats n
  | .str s => str (s.map Char.toNat)
  | .arr vs => arr (ofItems vs)
  | .obj ms => obj (ofMembers ms)

/-- Items as values. -/
def ofItems : List Json → List (Value F)
  | [] => []
  | v :: vs => ofJson v :: ofItems vs

/-- Members as values. -/
def ofMembers : List (List Char × Json) → List (List Nat × Value F)
  | [] => []
  | (k, v) :: ms => (k.map Char.toNat, ofJson v) :: ofMembers ms

end

variable {floats}

theorem toNat_scalar {n : Nat} {c : Char} (h : scalar n = some c) : c.toNat = n := by
  unfold scalar at h
  split_ifs at h with hn
  cases h
  unfold Char.ofNat
  rw [dif_pos hn]
  rfl

theorem codePoints_characters {units : List (Char ⊕ Nat)} {s : List Char}
    (h : characters units = some s) : codePoints units = s.map Char.toNat := by
  fun_induction characters units generalizing s with
  | case1 =>
    cases h
    rfl
  | case2 c units ih =>
    obtain ⟨t, ht, rfl⟩ := Option.map_eq_some_iff.mp h
    rw [codePoints, ih ht, List.map_cons]
  | case3 high low units hpair ih =>
    obtain ⟨t, ht, rfl⟩ := Option.map_eq_some_iff.mp h
    rw [codePoints, if_pos hpair, ih ht, List.map_cons, toNat_scalar]
    unfold scalar
    rw [if_pos (.inr (by omega))]
  | case4 high low units hpair ih =>
    obtain ⟨c, hc, h⟩ := Option.bind_eq_some_iff.mp h
    obtain ⟨t, ht, rfl⟩ := Option.map_eq_some_iff.mp h
    rw [codePoints, if_neg hpair, ih ht, List.map_cons, toNat_scalar hc]
  | case5 unit units hlast ih =>
    obtain ⟨c, hc, h⟩ := Option.bind_eq_some_iff.mp h
    obtain ⟨t, ht, rfl⟩ := Option.map_eq_some_iff.mp h
    rw [codePoints, ih ht, List.map_cons, toNat_scalar hc]
    exact hlast

theorem parseString_of_readString {s rest : List Char} {value : List Char}
    (h : readString s = some (value, rest)) :
    parseString s = some (value.map Char.toNat, rest) := by
  obtain ⟨⟨units, rest'⟩, hunits, h⟩ := Option.bind_eq_some_iff.mp h
  obtain ⟨value', hvalue, h⟩ := Option.bind_eq_some_iff.mp h
  cases h
  rw [parseString, hunits, Option.map_some, codePoints_characters hvalue]

mutual

/-- A document that is read is read as its value. -/
theorem parse_of_readValue : ∀ (fuel : Nat) {s rest : List Char} {v : Json},
    readValue fuel s = some (v, rest) → parse floats fuel s = some (ofJson floats v, rest)
  | 0, _, _, _, h => by cases h
  | fuel + 1, s, rest, v, h => by
    unfold readValue at h
    split at h
    · cases h
      simp only [parse, ofJson]
    · cases h
      simp only [parse, ofJson]
    · cases h
      simp only [parse, ofJson]
    · obtain ⟨⟨value, rest'⟩, hstring, h⟩ := Option.map_eq_some_iff.mp h
      cases h
      simp only [parse, parseString_of_readString hstring, Option.map_some, ofJson]
    · simp only [parse]
      split at h
      · next hskip =>
        cases h
        simp only [hskip, ofJson, ofItems]
      · next hskip =>
        obtain ⟨⟨v', rest'⟩, hv, h⟩ := Option.bind_eq_some_iff.mp h
        obtain ⟨⟨vs, rest''⟩, hvs, h⟩ := Option.bind_eq_some_iff.mp h
        cases h
        simp only [parse_of_readValue fuel hv, parseItems_of_readItems fuel hvs, ofJson, ofItems,
          Option.bind_eq_bind, Option.bind_some, Option.pure_def]
    · simp only [parse]
      split at h
      · next hskip =>
        cases h
        simp only [hskip, ofJson, ofMembers]
      · next hskip =>
        obtain ⟨⟨⟨k, v'⟩, rest'⟩, hm, h⟩ := Option.bind_eq_some_iff.mp h
        obtain ⟨⟨ms, rest''⟩, hms, h⟩ := Option.bind_eq_some_iff.mp h
        cases h
        simp only [parseMember_of_readMember fuel hm, parseMembers_of_readMembers fuel hms, ofJson,
          ofMembers, Option.bind_eq_bind, Option.bind_some, Option.pure_def]
    · rw [parse]
      · unfold readNumber at h
        unfold parseNumber
        dsimp only at h
        split_ifs at h with hspelled
        cases h
        rw [dif_pos hspelled]
        simp only [Option.map_some, ofJson]
      all_goals assumption

theorem parseItems_of_readItems : ∀ (fuel : Nat) {s rest : List Char} {vs : List Json},
    readItems fuel s = some (vs, rest) → parseItems floats fuel s = some (ofItems floats vs, rest)
  | 0, _, _, _, h => by cases h
  | fuel + 1, s, rest, vs, h => by
    unfold readItems at h
    split at h
    · cases h
      simp only [parseItems, ofItems]
    · obtain ⟨⟨v', rest'⟩, hv, h⟩ := Option.bind_eq_some_iff.mp h
      obtain ⟨⟨vs', rest''⟩, hvs, h⟩ := Option.bind_eq_some_iff.mp h
      cases h
      simp only [parseItems, parse_of_readValue fuel hv, parseItems_of_readItems fuel hvs, ofItems,
        Option.bind_eq_bind, Option.bind_some, Option.pure_def]
    · cases h

theorem parseMember_of_readMember : ∀ (fuel : Nat) {s rest k : List Char} {v : Json},
    readMember fuel s = some ((k, v), rest) →
      parseMember floats fuel s = some ((k.map Char.toNat, ofJson floats v), rest)
  | 0, _, _, _, _, h => by cases h
  | fuel + 1, s, rest, k, v, h => by
    unfold readMember at h
    split at h
    · obtain ⟨⟨k', rest'⟩, hk, h⟩ := Option.bind_eq_some_iff.mp h
      dsimp only at h
      split at h
      · next hskip =>
        obtain ⟨⟨v', rest''⟩, hv, h⟩ := Option.bind_eq_some_iff.mp h
        cases h
        simp only [parseMember, parseString_of_readString hk, hskip, parse_of_readValue fuel hv,
          Option.bind_eq_bind, Option.bind_some, Option.pure_def]
      · cases h
    · cases h

theorem parseMembers_of_readMembers : ∀ (fuel : Nat) {s rest : List Char}
    {ms : List (List Char × Json)}, readMembers fuel s = some (ms, rest) →
      parseMembers floats fuel s = some (ofMembers floats ms, rest)
  | 0, _, _, _, h => by cases h
  | fuel + 1, s, rest, ms, h => by
    unfold readMembers at h
    split at h
    · cases h
      simp only [parseMembers, ofMembers]
    · obtain ⟨⟨⟨k, v⟩, rest'⟩, hm, h⟩ := Option.bind_eq_some_iff.mp h
      obtain ⟨⟨ms', rest''⟩, hms, h⟩ := Option.bind_eq_some_iff.mp h
      cases h
      simp only [parseMembers, parseMember_of_readMember fuel hm,
        parseMembers_of_readMembers fuel hms, ofMembers, Option.bind_eq_bind, Option.bind_some,
        Option.pure_def]
    · cases h

end

/-! ## Keys -/

mutual

/-- A value with the keys of its objects in order. -/
def sorted : Value F → Value F
  | null => null
  | bool b => bool b
  | int n => int n
  | float x => float x
  | str s => str s
  | arr vs => arr (sortedItems vs)
  | obj ms => obj ((sortedMembers ms).insertionSort fun x y => x.1 ≤ y.1)

/-- Items with their keys in order. -/
def sortedItems : List (Value F) → List (Value F)
  | [] => []
  | v :: vs => sorted v :: sortedItems vs

/-- Members with the keys below them in order. -/
def sortedMembers : List (List Nat × Value F) → List (List Nat × Value F)
  | [] => []
  | (k, v) :: ms => (k, sorted v) :: sortedMembers ms

end

mutual

/-- Whether no object has a key twice. -/
def unique : Value F → Bool
  | arr vs => uniqueItems vs
  | obj ms => decide (ms.map Prod.fst).Nodup && uniqueMembers ms
  | _ => true

/-- Whether no object among items has a key twice. -/
def uniqueItems : List (Value F) → Bool
  | [] => true
  | v :: vs => unique v && uniqueItems vs

/-- Whether no object below members has a key twice. -/
def uniqueMembers : List (List Nat × Value F) → Bool
  | [] => true
  | (_, v) :: ms => unique v && uniqueMembers ms

end

/-- Values that are equal up to the order of their objects' members. -/
def Same (v w : Value F) : Prop := sorted v = sorted w

theorem sortedMembers_eq_map (ms : List (List Nat × Value F)) :
    sortedMembers ms = ms.map fun m => (m.1, sorted m.2) := by
  induction ms with
  | nil => rfl
  | cons m ms ih => rw [sortedMembers, ih, List.map_cons]

theorem uniqueMembers_eq_all (ms : List (List Nat × Value F)) :
    uniqueMembers ms = ms.all fun m => unique m.2 := by
  induction ms with
  | nil => rfl
  | cons m ms ih => rw [uniqueMembers, ih, List.all_cons]

/-- The members of an object, in order, are its members. -/
theorem perm_sortedMembers (ms : List (List Nat × Value F)) :
    ((sortedMembers ms).insertionSort fun x y => x.1 ≤ y.1).Perm
      (ms.map fun m => (m.1, sorted m.2)) := by
  rw [sortedMembers_eq_map]
  exact List.perm_insertionSort _ _

mutual

theorem sorted_sorted : ∀ v : Value F, sorted (sorted v) = sorted v
  | null | bool _ | int _ | float _ | str _ => by simp only [sorted]
  | arr vs => by simp only [sorted, sortedItems_sortedItems vs]
  | obj ms => by
    -- keys stay where they are, so sorting commutes with what happens below them
    have hmap (l : List (List Nat × Value F)) :
        sortedMembers (l.insertionSort fun x y => x.1 ≤ y.1) =
          (sortedMembers l).insertionSort fun x y => x.1 ≤ y.1 := by
      rw [sortedMembers_eq_map, sortedMembers_eq_map]
      exact List.map_insertionSort _ _ _ _ fun _ _ _ _ => Iff.rfl
    have htotal : Std.Total fun x y : List Nat × Value F => x.1 ≤ y.1 :=
      ⟨fun x y => le_total x.1 y.1⟩
    have htrans : IsTrans (List Nat × Value F) fun x y => x.1 ≤ y.1 := ⟨fun _ _ _ => le_trans⟩
    simp only [sorted, hmap, sortedMembers_sortedMembers ms]
    congr 1
    exact (List.pairwise_insertionSort _ _).insertionSort_eq

theorem sortedItems_sortedItems : ∀ vs : List (Value F),
    sortedItems (sortedItems vs) = sortedItems vs
  | [] => rfl
  | v :: vs => by simp only [sortedItems, sorted_sorted v, sortedItems_sortedItems vs]

theorem sortedMembers_sortedMembers : ∀ ms : List (List Nat × Value F),
    sortedMembers (sortedMembers ms) = sortedMembers ms
  | [] => rfl
  | (k, v) :: ms => by simp only [sortedMembers, sorted_sorted v, sortedMembers_sortedMembers ms]

end

theorem same_sorted (v : Value F) : Same (sorted v) v := sorted_sorted v

mutual

theorem unique_sorted : ∀ v : Value F, unique (sorted v) = unique v
  | null | bool _ | int _ | float _ | str _ => by simp only [sorted]
  | arr vs => by simp only [sorted, unique, uniqueItems_sortedItems vs]
  | obj ms => by
    have hperm := perm_sortedMembers ms
    have hkeys : (((sortedMembers ms).insertionSort fun x y => x.1 ≤ y.1).map Prod.fst).Nodup ↔
        (ms.map Prod.fst).Nodup := by
      rw [(hperm.map Prod.fst).nodup_iff, List.map_map]
      rfl
    have hbelow : uniqueMembers ((sortedMembers ms).insertionSort fun x y => x.1 ≤ y.1) =
        uniqueMembers ms := by
      rw [uniqueMembers_eq_all, (List.perm_insertionSort _ _).all_eq, ← uniqueMembers_eq_all]
      exact uniqueMembers_sortedMembers ms
    simp only [sorted, unique, hbelow, decide_eq_decide.mpr hkeys]

theorem uniqueItems_sortedItems : ∀ vs : List (Value F),
    uniqueItems (sortedItems vs) = uniqueItems vs
  | [] => rfl
  | v :: vs => by simp only [sortedItems, uniqueItems, unique_sorted v, uniqueItems_sortedItems vs]

theorem uniqueMembers_sortedMembers : ∀ ms : List (List Nat × Value F),
    uniqueMembers (sortedMembers ms) = uniqueMembers ms
  | [] => rfl
  | (k, v) :: ms => by
    simp only [sortedMembers, uniqueMembers, unique_sorted v, uniqueMembers_sortedMembers ms]

end

/-! ## Writing -/

variable (floats)

mutual

/-- The document a value is written as; none where it cannot be written. -/
def spell : Value F → Option Json
  | null => some .null
  | bool b => some (.bool b)
  | int n => some (.num (wholeNumber n))
  | float x => (floats.write x).map .num
  | str s => (s.mapM scalar).map .str
  | arr vs => (spellItems vs).map .arr
  | obj ms => (spellMembers ms).map .obj

/-- Items as they are written. -/
def spellItems : List (Value F) → Option (List Json)
  | [] => some []
  | v :: vs => do
    let j ← spell v
    let js ← spellItems vs
    return j :: js

/-- Members as they are written. -/
def spellMembers : List (List Nat × Value F) → Option (List (List Char × Json))
  | [] => some []
  | (k, v) :: ms => do
    let key ← k.mapM scalar
    let j ← spell v
    let js ← spellMembers ms
    return (key, j) :: js

end

/-- Whether a string is one of characters. -/
def isText (s : List Nat) : Bool := s.all fun n => n.isValidChar

mutual

/-- Whether a value can be written: its numbers are finite and its strings are text. -/
def writable : Value F → Bool
  | float x => (floats.write x).isSome
  | str s => isText s
  | arr vs => writableItems vs
  | obj ms => writableMembers ms
  | _ => true

/-- Whether items can be written. -/
def writableItems : List (Value F) → Bool
  | [] => true
  | v :: vs => writable v && writableItems vs

/-- Whether members can be written. -/
def writableMembers : List (List Nat × Value F) → Bool
  | [] => true
  | (k, v) :: ms => isText k && writable v && writableMembers ms

end

variable {floats}

theorem map_toNat_of_mapM {s : List Nat} {cs : List Char} (h : s.mapM scalar = some cs) :
    cs.map Char.toNat = s := by
  induction s generalizing cs with
  | nil =>
    cases h
    rfl
  | cons n s ih =>
    rw [List.mapM_cons] at h
    obtain ⟨c, hc, h⟩ := Option.bind_eq_some_iff.mp h
    obtain ⟨cs', hcs, h⟩ := Option.bind_eq_some_iff.mp h
    cases h
    rw [List.map_cons, toNat_scalar hc, ih hcs]

theorem isSome_mapM_scalar (s : List Nat) : (s.mapM scalar).isSome = isText s := by
  induction s with
  | nil => rfl
  | cons n s ih =>
    rw [isText, List.all_cons, ← isText, ← ih, List.mapM_cons]
    by_cases hn : n.isValidChar
    · have hscalar : scalar n = some (Char.ofNat n) := if_pos hn
      rw [hscalar]
      cases s.mapM scalar <;> simp [hn]
    · have hscalar : scalar n = none := if_neg hn
      rw [hscalar]
      simp [hn]

mutual

/-- What is written is the value. -/
theorem ofJson_spell : ∀ (v : Value F) {j : Json}, spell floats v = some j → ofJson floats j = v
  | null, _, h => by
    cases h
    simp only [ofJson]
  | bool b, _, h => by
    cases h
    simp only [ofJson]
  | int n, _, h => by
    cases h
    simp only [ofJson, ofNumber, not_fractional_wholeNumber, Bool.false_eq_true, if_false,
      whole_wholeNumber]
  | float x, _, h => by
    obtain ⟨n, hn, rfl⟩ := Option.map_eq_some_iff.mp h
    simp only [ofJson, ofNumber, floats.fractional x n hn, if_true, floats.exact x n hn]
  | str s, _, h => by
    obtain ⟨cs, hcs, rfl⟩ := Option.map_eq_some_iff.mp h
    simp only [ofJson, map_toNat_of_mapM hcs]
  | arr vs, _, h => by
    obtain ⟨js, hjs, rfl⟩ := Option.map_eq_some_iff.mp h
    simp only [ofJson, ofItems_spellItems vs hjs]
  | obj ms, _, h => by
    obtain ⟨js, hjs, rfl⟩ := Option.map_eq_some_iff.mp h
    simp only [ofJson, ofMembers_spellMembers ms hjs]

theorem ofItems_spellItems : ∀ (vs : List (Value F)) {js : List Json},
    spellItems floats vs = some js → ofItems floats js = vs
  | [], _, h => by
    cases h
    simp only [ofItems]
  | v :: vs, _, h => by
    obtain ⟨j, hj, h⟩ := Option.bind_eq_some_iff.mp h
    obtain ⟨js, hjs, h⟩ := Option.bind_eq_some_iff.mp h
    cases h
    simp only [ofItems, ofJson_spell v hj, ofItems_spellItems vs hjs]

theorem ofMembers_spellMembers : ∀ (ms : List (List Nat × Value F)) {js : List (List Char × Json)},
    spellMembers floats ms = some js → ofMembers floats js = ms
  | [], _, h => by
    cases h
    simp only [ofMembers]
  | (k, v) :: ms, _, h => by
    obtain ⟨key, hkey, h⟩ := Option.bind_eq_some_iff.mp h
    obtain ⟨j, hj, h⟩ := Option.bind_eq_some_iff.mp h
    obtain ⟨js, hjs, h⟩ := Option.bind_eq_some_iff.mp h
    cases h
    simp only [ofMembers, map_toNat_of_mapM hkey, ofJson_spell v hj, ofMembers_spellMembers ms hjs]

end

/-- A writer whose texts are read back, whatever comes after them. -/
structure ReadBack (write : Json → List Char) : Prop where
  read : ∀ j fuel rest, (write j).length ≤ fuel → Ends rest →
    readValue fuel (write j ++ rest) = some (j, rest)
  skip : ∀ j s, skip (write j ++ s) = write j ++ s

theorem readBack_dumps : ReadBack (dumps 0) := ⟨fun j => readValue_dumps j 0, skip_dumps 0⟩

theorem readBack_compact : ReadBack (compact escape) :=
  ⟨readValue_compact readsBack_escape, skip_compact escape⟩

/-- A value that was written is read, and what follows it is left. -/
theorem parse_spell {write : Json → List Char} (hwrite : ReadBack write) {v : Value F} {j : Json}
    (h : spell floats v = some j) {fuel : Nat} {rest : List Char} (hfuel : (write j).length ≤ fuel)
    (hrest : Ends rest) : parse floats fuel (write j ++ rest) = some (v, rest) := by
  rw [parse_of_readValue fuel (hwrite.read j fuel rest hfuel hrest), ofJson_spell v h]

/-- A value that was written is read, white space after it or not. -/
theorem parseText_spell {write : Json → List Char} (hwrite : ReadBack write) {v : Value F}
    {j : Json} (h : spell floats v = some j) {rest : List Char} (hrest : Ends rest)
    (hblank : skip rest = []) : parseText floats (write j ++ rest) = some v := by
  have hfuel : (write j).length ≤ (write j ++ rest).length + 1 := by
    rw [List.length_append]
    omega
  unfold parseText
  rw [hwrite.skip, parse_spell hwrite h hfuel hrest]
  simp only [Option.bind_eq_bind, Option.bind_some, if_pos hblank]

mutual

/-- A value is written exactly where it can be. -/
theorem isSome_spell : ∀ v : Value F, (spell floats v).isSome = writable floats v
  | null | bool _ | int _ => by simp only [spell, writable, Option.isSome_some]
  | float x => by simp only [spell, writable, Option.isSome_map]
  | str s => by simp only [spell, writable, Option.isSome_map, isSome_mapM_scalar]
  | arr vs => by simp only [spell, writable, Option.isSome_map, isSome_spellItems vs]
  | obj ms => by simp only [spell, writable, Option.isSome_map, isSome_spellMembers ms]

theorem isSome_spellItems : ∀ vs : List (Value F),
    (spellItems floats vs).isSome = writableItems floats vs
  | [] => rfl
  | v :: vs => by
    rw [writableItems, ← isSome_spell v, ← isSome_spellItems vs, spellItems]
    cases spell floats v <;> cases spellItems floats vs <;> rfl

theorem isSome_spellMembers : ∀ ms : List (List Nat × Value F),
    (spellMembers floats ms).isSome = writableMembers floats ms
  | [] => rfl
  | (k, v) :: ms => by
    rw [writableMembers, ← isSome_mapM_scalar, ← isSome_spell v, ← isSome_spellMembers ms,
      spellMembers]
    cases k.mapM scalar <;> cases spell floats v <;> cases spellMembers floats ms <;> rfl

end

theorem writableMembers_eq_all (ms : List (List Nat × Value F)) :
    writableMembers floats ms = ms.all fun m => isText m.1 && writable floats m.2 := by
  induction ms with
  | nil => rfl
  | cons m ms ih => rw [writableMembers, ih, List.all_cons]

mutual

/-- The order of the keys does not matter to that. -/
theorem writable_sorted : ∀ v : Value F, writable floats (sorted v) = writable floats v
  | null | bool _ | int _ | float _ | str _ => by simp only [sorted]
  | arr vs => by simp only [sorted, writable, writableItems_sortedItems vs]
  | obj ms => by
    rw [sorted, writable, writableMembers_eq_all, (List.perm_insertionSort _ _).all_eq,
      ← writableMembers_eq_all, writableMembers_sortedMembers ms, writable]

theorem writableItems_sortedItems : ∀ vs : List (Value F),
    writableItems floats (sortedItems vs) = writableItems floats vs
  | [] => rfl
  | v :: vs => by
    simp only [sortedItems, writableItems, writable_sorted v, writableItems_sortedItems vs]

theorem writableMembers_sortedMembers : ∀ ms : List (List Nat × Value F),
    writableMembers floats (sortedMembers ms) = writableMembers floats ms
  | [] => rfl
  | (k, v) :: ms => by
    simp only [sortedMembers, writableMembers, writable_sorted v, writableMembers_sortedMembers ms]

end

/-! ## Tokens -/

theorem length_readUnits {s rest : List Char} {units : List (Char ⊕ Nat)}
    (h : readUnits s = some (units, rest)) : rest.length < s.length := by
  fun_induction readUnits s generalizing units rest with
  | case1 => cases h
  | case2 rest' =>
    cases h
    exact Nat.lt_succ_self _
  | case3 a b c d rest' ih =>
    obtain ⟨unit, -, h⟩ := Option.bind_eq_some_iff.mp h
    obtain ⟨⟨units', rest''⟩, hunits, h⟩ := Option.bind_eq_some_iff.mp h
    cases h
    have := ih hunits
    simp only [List.length_cons]
    omega
  | case4 c rest' hne ih =>
    obtain ⟨c', -, h⟩ := Option.bind_eq_some_iff.mp h
    obtain ⟨⟨units', rest''⟩, hunits, h⟩ := Option.bind_eq_some_iff.mp h
    cases h
    have := ih hunits
    simp only [List.length_cons]
    omega
  | case5 => cases h
  | case6 c rest' hquote hescape hunit hlow ih =>
    obtain ⟨⟨units', rest''⟩, hunits, h⟩ := Option.bind_eq_some_iff.mp h
    cases h
    have := ih hunits
    simp only [List.length_cons]
    omega

theorem parseNumber_eq_some {s rest : List Char} {n : Number}
    (h : parseNumber s = some (n, rest)) :
    n.spelling = s.takeWhile numeral ∧ rest = s.dropWhile numeral := by
  unfold parseNumber at h
  split_ifs at h
  cases h
  exact ⟨rfl, rfl⟩

theorem length_parseNumber {s rest : List Char} {n : Number}
    (h : parseNumber s = some (n, rest)) : rest.length < s.length := by
  obtain ⟨hspelling, rfl⟩ := parseNumber_eq_some h
  obtain ⟨c, cs, hcs, -⟩ := spelling_cons n
  have hsplit := congrArg List.length (List.takeWhile_append_dropWhile (p := numeral) (l := s))
  rw [← hspelling, hcs, List.length_append, List.length_cons] at hsplit
  omega

/-- What of a text may be read and not be written. -/
inductive Token where
  | string (units : List (Char ⊕ Nat))
  | number (n : Number)

/-- Whether a character begins a number. -/
def beginsNumber (c : Char) : Bool := c = '-' || c.isDigit

/-- The strings and the numbers of a text. -/
def tokens : List Char → List Token
  | [] => []
  | c :: s =>
    if c = '"' then
      match _h : readUnits s with
      | some (units, rest) => .string units :: tokens rest
      | none => []
    else if beginsNumber c then
      match _h : parseNumber (c :: s) with
      | some (n, rest) => .number n :: tokens rest
      | none => []
    else tokens s
termination_by s => s.length
decreasing_by
  · have := length_readUnits _h
    simp only [List.length_cons]
    omega
  · exact length_parseNumber _h
  · exact Nat.lt_succ_self _

theorem tokens_nil : tokens [] = [] := by rw [tokens]

theorem tokens_string {s rest : List Char} {units : List (Char ⊕ Nat)}
    (h : readUnits s = some (units, rest)) : tokens ('"' :: s) = .string units :: tokens rest := by
  rw [tokens, if_pos rfl]
  split
  · next units' rest' h' =>
    rw [h] at h'
    cases h'
    rfl
  · next h' =>
    rw [h] at h'
    cases h'

theorem tokens_number {c : Char} {s rest : List Char} {n : Number} (hc : beginsNumber c)
    (h : parseNumber (c :: s) = some (n, rest)) : tokens (c :: s) = .number n :: tokens rest := by
  have hquote : c ≠ '"' := by
    rintro rfl
    exact absurd hc (by decide)
  rw [tokens, if_neg hquote, if_pos hc]
  split
  · next n' rest' h' =>
    rw [h] at h'
    cases h'
    rfl
  · next h' =>
    rw [h] at h'
    cases h'

theorem tokens_other {c : Char} (hquote : c ≠ '"') (hc : beginsNumber c = false) (s : List Char) :
    tokens (c :: s) = tokens s := by
  rw [tokens, if_neg hquote, if_neg (by simp [hc])]

theorem tokens_skip (s : List Char) : tokens (skip s) = tokens s := by
  induction s with
  | nil => rfl
  | cons c s ih =>
    by_cases hc : blank c
    · have hskip : skip (c :: s) = skip s := List.dropWhile_cons_of_pos hc
      have hother : c ≠ '"' ∧ beginsNumber c = false := by
        simp only [blank, Bool.or_eq_true, decide_eq_true_eq] at hc
        rcases hc with ((rfl | rfl) | rfl) | rfl <;> decide
      rw [hskip, ih, tokens_other hother.1 hother.2]
    · rw [skip_cons s (by simpa using hc)]

theorem beginsNumber_of_unsigned {c : Char} {s : List Char} (h : unsigned (c :: s) = true) :
    c.isDigit := by
  by_contra hc
  have hzero : c ≠ '0' := by
    rintro rfl
    exact hc (by decide)
  have hdigits : digits (c :: s) = none := by
    unfold digits
    rw [List.span_eq_takeWhile_dropWhile, List.takeWhile_cons_of_neg hc]
  rw [unsigned.eq_2 _ fun _ h => hzero (List.cons.inj h).1, hdigits] at h
  cases h

/-- A number begins with its sign or a digit. -/
theorem beginsNumber_of_spellsNumber {c : Char} {s : List Char}
    (h : spellsNumber (c :: s) = true) : beginsNumber c := by
  unfold beginsNumber
  by_cases hsign : c = '-'
  · simp [hsign]
  · rw [spellsNumber.eq_2 _ fun _ h => hsign (List.cons.inj h).1] at h
    simp [beginsNumber_of_unsigned h]

/-- Whether a token can be written. -/
def Token.fine (floats : Floats F) : Token → Bool
  | string units => isText (codePoints units)
  | number n => ¬ n.fractional || (floats.write (floats.read n)).isSome

/-- Whether every token of a text can be written. -/
def fineText (floats : Floats F) (s : List Char) : Bool := (tokens s).all (Token.fine floats)

theorem fineText_other {c : Char} (hquote : c ≠ '"') (hc : beginsNumber c = false)
    (s : List Char) : fineText floats (c :: s) = fineText floats s := by
  rw [fineText, tokens_other hquote hc, ← fineText]

theorem fineText_skip (s : List Char) : fineText floats (skip s) = fineText floats s := by
  rw [fineText, tokens_skip, ← fineText]

theorem fineText_parseString {s rest : List Char} {value : List Nat}
    (h : parseString s = some (value, rest)) :
    fineText floats ('"' :: s) = (isText value && fineText floats rest) := by
  obtain ⟨⟨units, rest'⟩, hunits, h⟩ := Option.map_eq_some_iff.mp h
  cases h
  rw [fineText, tokens_string hunits, List.all_cons, ← fineText]
  rfl

theorem writable_ofNumber (n : Number) :
    writable floats (ofNumber floats n) = (Token.number n).fine floats := by
  unfold ofNumber Token.fine
  cases h : n.fractional <;> simp [writable, h]

theorem fineText_parseNumber {s rest : List Char} {n : Number}
    (h : parseNumber s = some (n, rest)) :
    fineText floats s = (writable floats (ofNumber floats n) && fineText floats rest) := by
  obtain ⟨hspelling, -⟩ := parseNumber_eq_some h
  obtain ⟨c, cs, hcs, hc⟩ := spelling_cons n
  cases s with
  | nil =>
    rw [hspelling] at hcs
    cases hcs
  | cons d s =>
    have hd : d = c := by
      rw [hcs] at hspelling
      by_cases hd : numeral d
      · rw [List.takeWhile_cons_of_pos hd] at hspelling
        exact (List.cons.inj hspelling).1.symm
      · rw [List.takeWhile_cons_of_neg hd] at hspelling
        cases hspelling
    have hbegins : beginsNumber d := by
      have hspelled := n.spelled
      rw [hcs] at hspelled
      exact hd ▸ beginsNumber_of_spellsNumber hspelled
    rw [fineText, tokens_number hbegins h, List.all_cons, ← fineText, writable_ofNumber]

mutual

/-- What was read can be written exactly where the tokens can that it was read of. -/
theorem fineText_parse : ∀ (fuel : Nat) {s rest : List Char} {v : Value F},
    parse floats fuel s = some (v, rest) →
      fineText floats s = (writable floats v && fineText floats rest)
  | 0, _, _, _, h => by cases h
  | fuel + 1, s, rest, v, h => by
    unfold parse at h
    split at h
    · cases h
      simp [fineText_other, beginsNumber, writable]
    · cases h
      simp [fineText_other, beginsNumber, writable]
    · cases h
      simp [fineText_other, beginsNumber, writable]
    · obtain ⟨⟨value, rest'⟩, hstring, h⟩ := Option.map_eq_some_iff.mp h
      cases h
      rw [fineText_parseString hstring, writable]
    · next rest' =>
      rw [fineText_other (by decide) (by decide), ← fineText_skip]
      split at h
      · next hskip =>
        cases h
        rw [hskip, fineText_other (by decide) (by decide), writable, writableItems, Bool.true_and]
      · obtain ⟨⟨v', rest₁⟩, hv, h⟩ := Option.bind_eq_some_iff.mp h
        obtain ⟨⟨vs, rest₂⟩, hvs, h⟩ := Option.bind_eq_some_iff.mp h
        cases h
        rw [fineText_parse fuel hv, ← fineText_skip rest₁, fineText_parseItems fuel hvs, writable,
          writableItems, Bool.and_assoc]
    · next rest' =>
      rw [fineText_other (by decide) (by decide), ← fineText_skip]
      split at h
      · next hskip =>
        cases h
        rw [hskip, fineText_other (by decide) (by decide), writable, writableMembers, Bool.true_and]
      · obtain ⟨⟨⟨k, v'⟩, rest₁⟩, hm, h⟩ := Option.bind_eq_some_iff.mp h
        obtain ⟨⟨ms, rest₂⟩, hms, h⟩ := Option.bind_eq_some_iff.mp h
        cases h
        rw [fineText_parseMember fuel hm, ← fineText_skip rest₁, fineText_parseMembers fuel hms,
          writable, writableMembers]
        simp only [Bool.and_assoc]
    · obtain ⟨⟨n, rest'⟩, hnumber, h⟩ := Option.map_eq_some_iff.mp h
      cases h
      exact fineText_parseNumber hnumber

theorem fineText_parseItems : ∀ (fuel : Nat) {s rest : List Char} {vs : List (Value F)},
    parseItems floats fuel s = some (vs, rest) →
      fineText floats s = (writableItems floats vs && fineText floats rest)
  | 0, _, _, _, h => by cases h
  | fuel + 1, s, rest, vs, h => by
    unfold parseItems at h
    split at h
    · cases h
      rw [fineText_other (by decide) (by decide), writableItems, Bool.true_and]
    · obtain ⟨⟨v', rest₁⟩, hv, h⟩ := Option.bind_eq_some_iff.mp h
      obtain ⟨⟨vs', rest₂⟩, hvs, h⟩ := Option.bind_eq_some_iff.mp h
      cases h
      rw [fineText_other (by decide) (by decide), ← fineText_skip, fineText_parse fuel hv,
        ← fineText_skip rest₁, fineText_parseItems fuel hvs, writableItems, Bool.and_assoc]
    · cases h

theorem fineText_parseMember : ∀ (fuel : Nat) {s rest : List Char} {k : List Nat} {v : Value F},
    parseMember floats fuel s = some ((k, v), rest) →
      fineText floats s = (isText k && writable floats v && fineText floats rest)
  | 0, _, _, _, _, h => by cases h
  | fuel + 1, s, rest, k, v, h => by
    unfold parseMember at h
    split at h
    · obtain ⟨⟨k', rest'⟩, hk, h⟩ := Option.bind_eq_some_iff.mp h
      dsimp only at h
      split at h
      · next hskip =>
        obtain ⟨⟨v', rest''⟩, hv, h⟩ := Option.bind_eq_some_iff.mp h
        cases h
        rw [fineText_parseString hk, ← fineText_skip rest', hskip,
          fineText_other (by decide) (by decide), ← fineText_skip, fineText_parse fuel hv,
          Bool.and_assoc]
      · cases h
    · cases h

theorem fineText_parseMembers : ∀ (fuel : Nat) {s rest : List Char}
    {ms : List (List Nat × Value F)}, parseMembers floats fuel s = some (ms, rest) →
      fineText floats s = (writableMembers floats ms && fineText floats rest)
  | 0, _, _, _, h => by cases h
  | fuel + 1, s, rest, ms, h => by
    unfold parseMembers at h
    split at h
    · cases h
      rw [fineText_other (by decide) (by decide), writableMembers, Bool.true_and]
    · obtain ⟨⟨⟨k, v⟩, rest₁⟩, hm, h⟩ := Option.bind_eq_some_iff.mp h
      obtain ⟨⟨ms', rest₂⟩, hms, h⟩ := Option.bind_eq_some_iff.mp h
      cases h
      rw [fineText_other (by decide) (by decide), ← fineText_skip, fineText_parseMember fuel hm,
        ← fineText_skip rest₁, fineText_parseMembers fuel hms, writableMembers]
      simp only [Bool.and_assoc]
    · cases h

end

/-- What a whole text holds can be written exactly where every token of it can. -/
theorem writable_parseText {s : List Char} {v : Value F} (h : parseText floats s = some v) :
    writable floats v = fineText floats s := by
  obtain ⟨⟨v', rest⟩, hv, h⟩ := Option.bind_eq_some_iff.mp h
  dsimp only at h
  split_ifs at h with hend
  cases h
  have hrest : fineText floats rest = true := by
    rw [← fineText_skip, hend, fineText, tokens_nil]
    rfl
  rw [← fineText_skip s, fineText_parse _ hv, hrest, Bool.and_true]

end Value

end Lib
