import Mathlib.Algebra.Group.Nat.Defs
import Mathlib.Data.List.TakeDrop
import Mathlib.Data.List.TakeWhile
import Orqalis.Lib.Json

/-!
# JSON text without white space

The compact text of a document, with its strings escaped in one of two ways: only where it has
to be, or everything but the printing characters of ASCII. Either is read back
(`loads_compact`).

A text may hold its own length: a number field is set to the length of the text until that no
longer changes it. Such a text is as long as it says (`settle_eq`), and it is within a bound
exactly where its other characters leave room for the digits of the bound (`settle_le_iff`).
-/

namespace Lib.Json

/-! ## Decimal numbers -/

/-- The number of decimal digits. -/
def width (n : Nat) : Nat := (Nat.toDigits 10 n).length

theorem width_pos (n : Nat) : 0 < width n := Nat.length_toDigits_pos

theorem width_le_iff {n k : Nat} (hk : 0 < k) : width n ≤ k ↔ n < 10 ^ k :=
  Nat.length_toDigits_le_iff (by decide) hk

theorem width_mono {m n : Nat} (h : m ≤ n) : width m ≤ width n :=
  (width_le_iff (width_pos n)).mpr (Nat.lt_of_le_of_lt h ((width_le_iff (width_pos n)).mp le_rfl))

theorem lt_pow_width (n : Nat) : n < 10 ^ width n := (width_le_iff (width_pos n)).mp le_rfl

theorem width_eq {n k : Nat} (h : 10 ^ k ≤ n ∧ n < 10 ^ (k + 1)) : width n = k + 1 := by
  have hle : width n ≤ k + 1 := (width_le_iff (Nat.succ_pos k)).mpr h.2
  have hlt : k < width n :=
    (Nat.pow_lt_pow_iff_right (by decide)).mp (Nat.lt_of_le_of_lt h.1 (lt_pow_width n))
  exact Nat.le_antisymm hle hlt

theorem width_succ_le (n : Nat) : width (n + 1) ≤ width n + 1 := by
  rw [width_le_iff (Nat.succ_pos _), Nat.pow_succ]
  have := lt_pow_width n
  omega

/-! ## Texts that hold their own length -/

/-- Set a number to the length of the text that holds it, a number of times at most. A text has
`rest` characters beside the digits of the number. -/
def settleFrom (rest : Nat) : Nat → Nat → Nat
  | 0, size => size
  | rounds + 1, size =>
    if rest + width size = size then size else settleFrom rest rounds (rest + width size)

/-- What four rounds from zero come to. -/
def settle (rest : Nat) : Nat := settleFrom rest 4 0

theorem settleFrom_of_eq {rest size : Nat} (rounds : Nat) (h : rest + width size = size) :
    settleFrom rest rounds size = size := by
  cases rounds with
  | zero => rfl
  | succ rounds => exact if_pos h

theorem settleFrom_succ {rest size : Nat} (rounds : Nat) :
    settleFrom rest (rounds + 1) size = settleFrom rest rounds (rest + width size) := by
  change (if rest + width size = size then size else _) = _
  split_ifs with h
  · rw [h, settleFrom_of_eq rounds h]
  · rfl

/-- Four rounds come to a text that is as long as it says, unless the number they start from has
astronomically many digits. The first two rounds bring the number next to the other characters,
where the digits can grow by one at most; the others settle that. -/
theorem settleFrom_settled {rest start : Nat}
    (h : width (rest + width start) ≤ 9 * 10 ^ width (rest + 1)) :
    rest + width (settleFrom rest 4 start) = settleFrom rest 4 start := by
  have hfour : settleFrom rest 4 start =
      rest + width (rest + width (rest + width (rest + width start))) := by
    rw [settleFrom_succ, settleFrom_succ, settleFrom_succ, settleFrom_succ]
    rfl
  obtain ⟨w, hw⟩ : ∃ w, w = width (rest + 1) := ⟨_, rfl⟩
  rw [← hw] at h
  have hpos : 0 < w := hw ▸ width_pos _
  have hless : rest + 1 < 10 ^ w := hw ▸ lt_pow_width _
  have hlow : ∀ k, 0 < k → w ≤ width (rest + k) := by
    intro k hk
    rw [hw]
    exact width_mono (by omega)
  have hhigh : ∀ k, k ≤ 9 * 10 ^ w → width (rest + k) ≤ w + 1 := by
    intro k hk
    rw [width_le_iff (Nat.succ_pos _), Nat.pow_succ]
    omega
  have hroom : w + 1 ≤ 9 * 10 ^ w := by
    have := Nat.lt_pow_self (n := w) (a := 10) (by decide)
    omega
  have hmono : width (rest + w) ≤ width (rest + (w + 1)) := width_mono (by omega)
  have hlast := hhigh (w + 1) hroom
  have hfirst := hlow w hpos
  rw [hfour]
  -- the second round leaves one of two numbers, and each is kept or goes to the other
  have htwo : width (rest + width (rest + width start)) = w ∨
      width (rest + width (rest + width start)) = w + 1 := by
    have := hlow _ (width_pos (rest + width start))
    have := hhigh _ h
    omega
  rcases htwo with htwo | htwo
  · rw [htwo]
    rcases Nat.eq_or_lt_of_le hfirst with hsame | hmore
    · rw [← hsame, ← hsame]
    · have hnext : width (rest + w) = w + 1 := by omega
      have hkept : width (rest + (w + 1)) = w + 1 := by omega
      rw [hnext, hkept]
  · rw [htwo]
    rcases Nat.eq_or_lt_of_le hlast with hsame | hless
    · rw [hsame, hsame]
    · have hback : width (rest + (w + 1)) = w := by omega
      have hkept : width (rest + w) = w := by omega
      rw [hback, hkept]

/-- Four rounds from zero come to a text that is as long as it says. -/
theorem settle_eq (rest : Nat) : rest + width (settle rest) = settle rest := by
  have hone : width 0 = 1 := by decide
  refine settleFrom_settled ?_
  rw [hone]
  have := Nat.lt_pow_self (n := width (rest + 1)) (a := 10) (by decide)
  omega

/-- The rounds do not pass a number that the text with it fits into. -/
theorem settleFrom_le {rest size start : Nat} (h : rest + width size ≤ size) (rounds : Nat)
    (hstart : start ≤ size) : settleFrom rest rounds start ≤ size := by
  induction rounds generalizing start with
  | zero => exact hstart
  | succ rounds ih =>
    rw [settleFrom_succ]
    exact ih (Nat.le_trans (Nat.add_le_add_left (width_mono hstart) rest) h)

/-- The rounds come to the least such text. -/
theorem settle_le {rest size : Nat} (h : rest + width size ≤ size) : settle rest ≤ size :=
  settleFrom_le h 4 (Nat.zero_le size)

theorem add_width_le {rest m n : Nat} (h : rest + width m ≤ m) (hmn : m ≤ n) :
    rest + width n ≤ n := by
  induction n, hmn using Nat.le_induction with
  | base => exact h
  | succ n _ ih =>
    have := width_succ_le n
    omega

/-- A text is within a bound exactly where its other characters leave room for the digits of
the bound. -/
theorem settle_le_iff {rest bound : Nat} : settle rest ≤ bound ↔ rest + width bound ≤ bound :=
  ⟨fun h => add_width_le (settle_eq rest).le h, settle_le⟩

/-! ## The compact writer -/

theorem numerals_toDigits (n : Nat) : (Nat.toDigits 10 n).all numeral = true := by
  rw [List.all_eq_true]
  intro c hc
  have hdigit := Nat.isDigit_of_mem_toDigits (by decide) (by decide) hc
  simp [numeral, hdigit]

/-- The first digit is not zero. -/
theorem head_toDigits {n : Nat} (hn : 0 < n) : (Nat.toDigits 10 n).head? ≠ some '0' := by
  induction n using Nat.strong_induction_on with
  | h n ih =>
    rcases Nat.lt_or_ge n 10 with hless | hle
    · have hdigit : ∀ m < 10, 0 < m → Nat.digitChar m ≠ '0' := by decide
      rw [Nat.toDigits_of_lt_base hless]
      exact fun h => hdigit n hless hn (Option.some.inj h)
    · have hdiv : 0 < n / 10 := Nat.div_pos hle (by decide)
      have hhead := ih (n / 10) (Nat.div_lt_self hn (by decide)) hdiv
      rw [Nat.toDigits_of_base_le (by decide) hle]
      cases hdigits : Nat.toDigits 10 (n / 10) with
      | nil => exact absurd hdigits Nat.toDigits_ne_nil
      | cons c cs =>
        rw [hdigits] at hhead
        exact hhead

theorem spellsNumber_toDigits (n : Nat) : spellsNumber (Nat.toDigits 10 n) = true := by
  rcases Nat.eq_zero_or_pos n with rfl | hn
  · rfl
  have hdigit : ∀ c ∈ Nat.toDigits 10 n, c.isDigit = true := fun c hc =>
    Nat.isDigit_of_mem_toDigits (by decide) (by decide) hc
  have hhead := head_toDigits hn
  cases hdigits : Nat.toDigits 10 n with
  | nil => exact absurd hdigits Nat.toDigits_ne_nil
  | cons c cs =>
    rw [hdigits] at hdigit hhead
    have hzero : c ≠ '0' := fun h => hhead (congrArg some h)
    have hsign : c ≠ '-' := by
      rintro rfl
      exact absurd (hdigit '-' List.mem_cons_self) (by decide)
    have hspan : digits (c :: cs) = some [] := by
      have htake : (c :: cs).takeWhile Char.isDigit = c :: cs :=
        List.takeWhile_eq_self_iff.mpr hdigit
      have hdrop : (c :: cs).dropWhile Char.isDigit = [] :=
        List.dropWhile_eq_nil_iff.mpr hdigit
      unfold digits
      rw [List.span_eq_takeWhile_dropWhile, htake, hdrop]
    have hunsigned : unsigned (c :: cs) = true := by
      rw [unsigned.eq_2 _ fun _ h => hzero (List.cons.inj h).1, hspan]
      rfl
    rw [spellsNumber.eq_2 _ fun _ h => hsign (List.cons.inj h).1, hunsigned]

/-- A natural number. -/
def natural (n : Nat) : Json :=
  .num ⟨Nat.toDigits 10 n, numerals_toDigits n, spellsNumber_toDigits n⟩

variable (esc : Char → List Char)

/-- A string between its quotes, escaped in some way. -/
def quoteWith (s : List Char) : List Char := '"' :: (s.flatMap esc ++ ['"'])

mutual

/-- The text of a document without white space. -/
def compact : Json → List Char
  | null => ['n', 'u', 'l', 'l']
  | bool true => ['t', 'r', 'u', 'e']
  | bool false => ['f', 'a', 'l', 's', 'e']
  | num n => n.spelling
  | str s => quoteWith esc s
  | arr [] => ['[', ']']
  | arr (v :: vs) => '[' :: (compact v ++ compactItems vs ++ [']'])
  | obj [] => ['{', '}']
  | obj ((k, v) :: ms) => '{' :: (quoteWith esc k ++ ':' :: compact v ++ compactMembers ms ++ ['}'])

/-- The items after the first. -/
def compactItems : List Json → List Char
  | [] => []
  | v :: vs => ',' :: (compact v ++ compactItems vs)

/-- The members after the first. -/
def compactMembers : List (List Char × Json) → List Char
  | [] => []
  | (k, v) :: ms => ',' :: (quoteWith esc k ++ ':' :: compact v ++ compactMembers ms)

end

theorem compact_natural (n : Nat) : compact esc (natural n) = Nat.toDigits 10 n := by
  rw [natural, compact]

theorem compactMembers_append (before after : List (List Char × Json)) :
    compactMembers esc (before ++ after) =
      compactMembers esc before ++ compactMembers esc after := by
  induction before with
  | nil => simp [compactMembers]
  | cons m before ih => simp [compactMembers, ih]

/-- A number among the members of an object is a part of its text, and no other part of the text
depends on it. -/
theorem compact_obj_natural (before after : List (List Char × Json)) (k : List Char) :
    ∃ front back, ∀ n, compact esc (.obj (before ++ (k, natural n) :: after)) =
      front ++ Nat.toDigits 10 n ++ back := by
  cases before with
  | nil =>
    refine ⟨'{' :: (quoteWith esc k ++ [':']), compactMembers esc after ++ ['}'], fun n => ?_⟩
    simp [compact, compact_natural]
  | cons m before =>
    refine ⟨'{' :: (quoteWith esc m.1 ++ ':' :: compact esc m.2 ++ compactMembers esc before ++
      ',' :: (quoteWith esc k ++ [':'])), compactMembers esc after ++ ['}'], fun n => ?_⟩
    simp [compact, compactMembers, compactMembers_append, compact_natural]

/-- The characters of a text once they are escaped. -/
def escaped (s : List Char) : Nat := (s.flatMap escape).length

theorem length_quote (s : List Char) : (quoteWith escape s).length = escaped s + 2 := by
  simp [quoteWith, escaped]

theorem escaped_append (s t : List Char) : escaped (s ++ t) = escaped s + escaped t := by
  simp [escaped]

theorem escape_ne_nil (c : Char) : escape c ≠ [] := by
  unfold escape
  split_ifs <;> simp

/-- Every character takes one at least. -/
theorem length_le_escaped (s : List Char) : s.length ≤ escaped s := by
  induction s with
  | nil => exact Nat.zero_le _
  | cons c s ih =>
    have hpos := List.length_pos_of_ne_nil (escape_ne_nil c)
    unfold escaped at ih ⊢
    rw [List.flatMap_cons, List.length_append, List.length_cons]
    omega

/-! ## Reading compact texts -/

/-- Whether strings are read back from the way they are escaped. -/
def ReadsBack : Prop :=
  ∀ s rest, readString (s.flatMap esc ++ '"' :: rest) = some (s, rest)

variable {esc}

/-- The first character of a document's text is no white space and closes nothing. -/
theorem compact_cons (esc : Char → List Char) (v : Json) :
    ∃ c s, compact esc v = c :: s ∧ blank c = false ∧ c ≠ ']' := by
  cases v with
  | null => exact ⟨'n', _, by simp only [compact]; rfl, by decide, by decide⟩
  | bool b =>
    cases b
    · exact ⟨'f', _, by simp only [compact]; rfl, by decide, by decide⟩
    · exact ⟨'t', _, by simp only [compact]; rfl, by decide, by decide⟩
  | str s => exact ⟨'"', _, by simp only [compact]; rfl, by decide, by decide⟩
  | num n =>
    obtain ⟨c, s, hs, hc⟩ := spelling_cons n
    refine ⟨c, s, by simp only [compact, hs], ?_, ?_⟩
    · rw [Bool.eq_false_iff]
      intro hblank
      simp only [blank, Bool.or_eq_true, decide_eq_true_eq] at hblank
      rcases hblank with ((rfl | rfl) | rfl) | rfl <;> exact absurd hc (by decide)
    · rintro rfl
      exact absurd hc (by decide)
  | arr vs =>
    cases vs
    · exact ⟨'[', _, by simp only [compact]; rfl, by decide, by decide⟩
    · exact ⟨'[', _, by simp only [compact]; rfl, by decide, by decide⟩
  | obj ms =>
    cases ms
    · exact ⟨'{', _, by simp only [compact]; rfl, by decide, by decide⟩
    · exact ⟨'{', _, by simp only [compact]; rfl, by decide, by decide⟩

theorem skip_compact (esc : Char → List Char) (v : Json) (s : List Char) :
    skip (compact esc v ++ s) = compact esc v ++ s := by
  obtain ⟨c, t, ht, hc, -⟩ := compact_cons esc v
  rw [ht, List.cons_append, skip_cons _ hc]

theorem ends_compactItems {vs : List Json} {s : List Char} (h : Ends s) :
    Ends (compactItems esc vs ++ s) := by
  cases vs with
  | nil => simpa [compactItems] using h
  | cons v vs =>
    rw [compactItems]
    exact ends_cons (by decide)

theorem ends_compactMembers {ms : List (List Char × Json)} {s : List Char} (h : Ends s) :
    Ends (compactMembers esc ms ++ s) := by
  cases ms with
  | nil => simpa [compactMembers] using h
  | cons m ms =>
    rw [compactMembers]
    exact ends_cons (by decide)

mutual

theorem readValue_compact (hesc : ReadsBack esc) : ∀ (v : Json) (fuel : Nat) (rest : List Char),
    (compact esc v).length ≤ fuel → Ends rest →
      readValue fuel (compact esc v ++ rest) = some (v, rest)
  | null, fuel + 1, rest, _, _ => by simp [compact, readValue]
  | bool true, fuel + 1, rest, _, _ => by simp [compact, readValue]
  | bool false, fuel + 1, rest, _, _ => by simp [compact, readValue]
  | str s, fuel + 1, rest, _, _ => by simp [compact, quoteWith, readValue, hesc s rest]
  | num n, fuel + 1, rest, _, hrest => by
    obtain ⟨c, s, hs, hc⟩ := spelling_cons n
    have hread := readNumber_spelling n hrest
    simp only [compact, hs, List.cons_append] at hread ⊢
    rw [readValue]
    · exact hread
    all_goals
      intro t ht
      injection ht with hchar
      rw [hchar] at hc
      exact absurd hc (by decide)
  | arr [], fuel + 1, rest, _, _ => by simp [compact, readValue, skip, blank]
  | arr (v :: vs), fuel + 1, rest, hfuel, _ => by
    have hcons : compact esc (arr (v :: vs)) ++ rest =
        '[' :: (compact esc v ++ (compactItems esc vs ++ ']' :: rest)) := by
      simp [compact]
    simp only [compact, List.length_cons, List.length_append] at hfuel
    obtain ⟨c, s, hs, -, hc⟩ := compact_cons esc v
    have hv := readValue_compact hesc v fuel (compactItems esc vs ++ ']' :: rest) (by omega)
      (ends_compactItems (ends_cons (by decide)))
    rw [hcons]
    simp only [readValue, skip_compact]
    rw [hs, List.cons_append] at hv ⊢
    split
    · rename_i h
      injection h with hchar
      exact absurd hchar hc
    · simp only [hv, readItems_compact hesc vs fuel rest (by omega), Option.bind_eq_bind,
        Option.bind_some, Option.pure_def]
  | obj [], fuel + 1, rest, _, _ => by simp [compact, readValue, skip, blank]
  | obj ((k, v) :: ms), fuel + 1, rest, hfuel, _ => by
    have hcons : compact esc (obj ((k, v) :: ms)) ++ rest =
        '{' :: '"' :: (k.flatMap esc ++ '"' :: ':' ::
          (compact esc v ++ (compactMembers esc ms ++ '}' :: rest))) := by
      simp [compact, quoteWith]
    simp only [compact, quoteWith, List.length_cons, List.length_append] at hfuel
    have hm := readMember_compact hesc k v fuel (compactMembers esc ms ++ '}' :: rest) (by omega)
      (ends_compactMembers (ends_cons (by decide)))
    rw [hcons]
    simp only [readValue, skip_cons _ (show blank '"' = false by decide)]
    split
    · rename_i h
      injection h with hchar
      exact absurd hchar (by decide)
    · simp only [hm, readMembers_compact hesc ms fuel rest (by omega), Option.bind_eq_bind,
        Option.bind_some, Option.pure_def]
  | v, 0, rest, hfuel, _ => by
    obtain ⟨c, s, hs, -⟩ := compact_cons esc v
    simp [hs] at hfuel

theorem readItems_compact (hesc : ReadsBack esc) : ∀ (vs : List Json) (fuel : Nat)
    (rest : List Char), (compactItems esc vs).length < fuel →
      readItems fuel (skip (compactItems esc vs ++ ']' :: rest)) = some (vs, rest)
  | [], fuel + 1, rest, _ => by simp [compactItems, skip_cons, blank, readItems]
  | v :: vs, fuel + 1, rest, hfuel => by
    have hcons : compactItems esc (v :: vs) ++ ']' :: rest =
        ',' :: (compact esc v ++ (compactItems esc vs ++ ']' :: rest)) := by
      simp [compactItems]
    simp only [compactItems, List.length_cons, List.length_append] at hfuel
    rw [hcons, skip_cons _ (by decide)]
    simp only [readItems, skip_compact]
    rw [readValue_compact hesc v fuel _ (by omega) (ends_compactItems (ends_cons (by decide)))]
    simp [readItems_compact hesc vs fuel rest (by omega)]

theorem readMember_compact (hesc : ReadsBack esc) (k : List Char) : ∀ (v : Json) (fuel : Nat)
    (rest : List Char), (compact esc v).length < fuel → Ends rest →
      readMember fuel ('"' :: (k.flatMap esc ++ '"' :: ':' :: (compact esc v ++ rest))) =
        some ((k, v), rest)
  | v, fuel + 1, rest, hfuel, hrest => by
    simp only [readMember, hesc k, Option.bind_eq_bind, Option.bind_some,
      skip_cons _ (show blank ':' = false by decide), skip_compact,
      readValue_compact hesc v fuel rest (by omega) hrest, Option.pure_def]

theorem readMembers_compact (hesc : ReadsBack esc) : ∀ (ms : List (List Char × Json)) (fuel : Nat)
    (rest : List Char), (compactMembers esc ms).length < fuel →
      readMembers fuel (skip (compactMembers esc ms ++ '}' :: rest)) = some (ms, rest)
  | [], fuel + 1, rest, _ => by simp [compactMembers, skip_cons, blank, readMembers]
  | (k, v) :: ms, fuel + 1, rest, hfuel => by
    have hcons : compactMembers esc ((k, v) :: ms) ++ '}' :: rest =
        ',' :: '"' :: (k.flatMap esc ++ '"' :: ':' ::
          (compact esc v ++ (compactMembers esc ms ++ '}' :: rest))) := by
      simp [compactMembers, quoteWith]
    simp only [compactMembers, quoteWith, List.length_cons, List.length_append] at hfuel
    rw [hcons, skip_cons _ (by decide)]
    simp only [readMembers, skip_cons _ (show blank '"' = false by decide)]
    rw [readMember_compact hesc k v fuel _ (by omega) (ends_compactMembers (ends_cons (by decide)))]
    simp [readMembers_compact hesc ms fuel rest (by omega)]

end

/-- What was written is read back. -/
theorem loads_compact (hesc : ReadsBack esc) (v : Json) : loads (compact esc v) = some v := by
  have hskip : skip (compact esc v) = compact esc v := by simpa using skip_compact esc v []
  have hread := readValue_compact hesc v ((compact esc v).length + 1) [] (by omega) ends_nil
  have hend : skip [] = [] := rfl
  rw [List.append_nil] at hread
  simp [loads, hskip, hread, hend]

theorem compact_injective (hesc : ReadsBack esc) : Function.Injective (compact esc) := by
  intro v w h
  have hv := loads_compact hesc v
  rw [h, loads_compact hesc w] at hv
  exact (Option.some.inj hv).symm

theorem readsBack_escape : ReadsBack escape := readString_quote

/-! ## Lines -/

/-- Whether a text has no line break. -/
def Line (s : List Char) : Prop := ∀ c ∈ s, c ≠ '\n' ∧ c ≠ '\r'

theorem Line.append {s t : List Char} (hs : Line s) (ht : Line t) : Line (s ++ t) := by
  intro c hc
  rcases List.mem_append.mp hc with hc | hc
  · exact hs c hc
  · exact ht c hc

theorem Line.cons {c : Char} {s : List Char} (hc : c ≠ '\n' ∧ c ≠ '\r') (hs : Line s) :
    Line (c :: s) := by
  rintro d (_ | ⟨_, hd⟩)
  · exact hc
  · exact hs d hd

theorem line_quoteWith (s : List Char) : Line (quoteWith escape s) := by
  intro c hc
  simp only [quoteWith, List.mem_cons, List.mem_append, List.mem_flatMap, List.not_mem_nil,
    or_false] at hc
  rcases hc with rfl | ⟨d, -, hd⟩ | rfl
  · decide
  · exact escape_line d c hd
  · decide

mutual

/-- The text of a document is one line. -/
theorem line_compact : ∀ v : Json, Line (compact escape v)
  | null => by simp [compact, Line]
  | bool true => by simp [compact, Line]
  | bool false => by simp [compact, Line]
  | num n => by
    intro c hc
    have hnumeral := List.all_eq_true.mp n.numerals c (by simpa [compact] using hc)
    constructor <;> rintro rfl <;> exact absurd hnumeral (by decide)
  | str s => by simpa [compact] using line_quoteWith s
  | arr [] => by simp [compact, Line]
  | obj [] => by simp [compact, Line]
  | arr (v :: vs) => by
    have hclose : Line [']'] := by simp [Line]
    have hall := ((line_compact v).append (line_compactItems vs)).append hclose
    simpa [compact] using Line.cons (c := '[') (by decide) hall
  | obj ((k, v) :: ms) => by
    have hclose : Line ['}'] := by simp [Line]
    have hmember := (line_quoteWith k).append (Line.cons (c := ':') (by decide) (line_compact v))
    have hall := (hmember.append (line_compactMembers ms)).append hclose
    simpa [compact] using Line.cons (c := '{') (by decide) hall

theorem line_compactItems : ∀ vs : List Json, Line (compactItems escape vs)
  | [] => by simp [compactItems, Line]
  | v :: vs => by
    have hall := (line_compact v).append (line_compactItems vs)
    simpa [compactItems] using Line.cons (c := ',') (by decide) hall

theorem line_compactMembers : ∀ ms : List (List Char × Json), Line (compactMembers escape ms)
  | [] => by simp [compactMembers, Line]
  | (k, v) :: ms => by
    have hmember := (line_quoteWith k).append (Line.cons (c := ':') (by decide) (line_compact v))
    have hall := hmember.append (line_compactMembers ms)
    simpa [compactMembers] using Line.cons (c := ',') (by decide) hall

end

/-! ## ASCII texts -/

/-- The code units of a character. -/
def codeUnits (c : Char) : List Nat :=
  if c.toNat < 0x10000 then [c.toNat]
  else [0xD800 + (c.toNat - 0x10000) / 0x400, 0xDC00 + (c.toNat - 0x10000) % 0x400]

/-- A code unit in four hexadecimal digits. -/
def escapeUnit (n : Nat) : List Char :=
  ['\\', 'u', hexDigit (n / 4096), hexDigit (n / 256 % 16), hexDigit (n / 16 % 16),
    hexDigit (n % 16)]

/-- A character of a string, escaped unless it is a printing one of ASCII. -/
def escapeAscii (c : Char) : List Char :=
  if c.toNat < 127 then escape c else (codeUnits c).flatMap escapeUnit

/-- A character as its escape leaves it to the reader. -/
def asciiUnits (c : Char) : List (Char ⊕ Nat) :=
  if c.toNat < 127 then [unitOf c] else (codeUnits c).map .inr

theorem codeUnits_lt {c : Char} {n : Nat} (hn : n ∈ codeUnits c) : n < 65536 := by
  have hvalid : c.toNat < 0xD800 ∨ 0xDFFF < c.toNat ∧ c.toNat < 0x110000 := c.valid
  unfold codeUnits at hn
  split_ifs at hn with hc
  · rw [List.mem_singleton.mp hn]
    exact hc
  · simp only [List.mem_cons, List.not_mem_nil, or_false] at hn
    omega

theorem readUnits_escapeUnit {n : Nat} (hn : n < 65536) (s : List Char) :
    readUnits (escapeUnit n ++ s) = (readUnits s).map fun p => (.inr n :: p.1, p.2) := by
  have hunit : codeUnit (hexDigit (n / 4096)) (hexDigit (n / 256 % 16)) (hexDigit (n / 16 % 16))
      (hexDigit (n % 16)) = some n := by
    simp only [codeUnit, hexValue_hexDigit (n / 4096) (by omega),
      hexValue_hexDigit (n / 256 % 16) (by omega), hexValue_hexDigit (n / 16 % 16) (by omega),
      hexValue_hexDigit (n % 16) (by omega), Option.pure_def, Option.bind_eq_bind,
      Option.bind_some, Option.some.injEq]
    omega
  simp only [escapeUnit, List.cons_append, List.nil_append, readUnits, hunit]
  cases readUnits s <;> simp

theorem readUnits_escapeUnits {l : List Nat} (hl : ∀ n ∈ l, n < 65536) (s : List Char) :
    readUnits (l.flatMap escapeUnit ++ s) =
      (readUnits s).map fun p => (l.map .inr ++ p.1, p.2) := by
  induction l with
  | nil => simp
  | cons n l ih =>
    obtain ⟨hn, hl⟩ := List.forall_mem_cons.mp hl
    rw [List.flatMap_cons, List.append_assoc, readUnits_escapeUnit hn, ih hl, Option.map_map]
    rfl

theorem readUnits_escapeAscii (c : Char) (s : List Char) :
    readUnits (escapeAscii c ++ s) = (readUnits s).map fun p => (asciiUnits c ++ p.1, p.2) := by
  unfold escapeAscii asciiUnits
  split_ifs
  · exact readUnits_escape c s
  · exact readUnits_escapeUnits (fun n => codeUnits_lt) s

/-- A code unit that starts no surrogate pair. -/
theorem characters_inr {n : Nat} (hn : ¬ (0xD800 ≤ n ∧ n < 0xDC00)) (units : List (Char ⊕ Nat)) :
    characters (.inr n :: units) = (scalar n).bind fun c => (c :: ·) <$> characters units := by
  cases units with
  | nil => rfl
  | cons u units =>
    cases u with
    | inl c => rfl
    | inr low =>
      rw [characters, if_neg (by omega)]
      rfl

theorem scalar_toNat (c : Char) : scalar c.toNat = some c := by
  have hvalid : c.toNat.isValidChar := c.valid
  rw [scalar, if_pos hvalid, Char.ofNat_toNat]

theorem characters_asciiUnits (s : List Char) : characters (s.flatMap asciiUnits) = some s := by
  induction s with
  | nil => rfl
  | cons c s ih =>
    rw [List.flatMap_cons]
    have hsingle : ∀ n, n = c.toNat → ¬ (0xD800 ≤ n ∧ n < 0xDC00) →
        characters (.inr n :: s.flatMap asciiUnits) = some (c :: s) := by
      rintro n rfl hn
      rw [characters_inr hn, scalar_toNat, ih]
      rfl
    have hvalid : c.toNat < 0xD800 ∨ 0xDFFF < c.toNat ∧ c.toNat < 0x110000 := c.valid
    by_cases hascii : c.toNat < 127
    · rw [asciiUnits, if_pos hascii]
      by_cases hcontrol : c.toNat < 32 ∧ c ∉ ['\n', '\r', '\t', '\x0c', '\x08']
      · rw [unitOf, if_pos hcontrol]
        exact hsingle _ rfl (by omega)
      · rw [unitOf, if_neg hcontrol, List.singleton_append, characters, ih]
        rfl
    rw [asciiUnits, if_neg hascii]
    by_cases hsmall : c.toNat < 0x10000
    · rw [codeUnits, if_pos hsmall]
      exact hsingle _ rfl (by omega)
    · -- two surrogates stand for the character
      have hpair : 0x10000 + (0xD800 + (c.toNat - 0x10000) / 0x400 - 0xD800) * 0x400 +
          (0xDC00 + (c.toNat - 0x10000) % 0x400 - 0xDC00) = c.toNat := by omega
      rw [codeUnits, if_neg hsmall]
      simp only [List.map_cons, List.map_nil, List.cons_append, List.nil_append]
      rw [characters, if_pos (by omega), ih, hpair, Char.ofNat_toNat]
      rfl

theorem readsBack_escapeAscii : ReadsBack escapeAscii := by
  intro s rest
  have hunits : readUnits (s.flatMap escapeAscii ++ '"' :: rest) =
      some (s.flatMap asciiUnits, rest) := by
    induction s with
    | nil => rfl
    | cons c s ih =>
      rw [List.flatMap_cons, List.append_assoc, readUnits_escapeAscii, ih]
      rfl
  simp [readString, hunits, characters_asciiUnits]

end Lib.Json
