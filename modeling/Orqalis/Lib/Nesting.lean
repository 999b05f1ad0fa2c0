import Orqalis.Lib.Loads

/-!
# Quotes and nesting

Where in a JSON text a character stands: outside of strings or in one, and how deep. A text that
is read ends where it began (`parseText_passes`), so the beginning of an object's text followed by
another object's text is not read (`parseText_torn`): a beginning that ends outside of strings
leaves an object open, and one that ends in a string turns the other text inside out.
-/

namespace Lib

/-- Where a character stands. -/
inductive Place
  | outside
  | inside
  | escaped
  | stuck
deriving DecidableEq

/-- A place after a character. Outside of strings nothing is escaped. -/
def Place.step : Place → Char → Place
  | outside, c => if c = '"' then inside else if c = '\\' then stuck else outside
  | inside, c => if c = '"' then outside else if c = '\\' then escaped else inside
  | escaped, _ => inside
  | stuck, _ => stuck

/-- How much deeper a bracket leads. -/
def deeper (c : Char) : Int :=
  if c = '{' || c = '[' then 1 else if c = '}' || c = ']' then -1 else 0

/-- A place and its depth. -/
structure Spot where
  place : Place
  depth : Int

/-- A spot after a character. -/
def Spot.step (s : Spot) (c : Char) : Spot :=
  ⟨s.place.step c, if s.place = .outside then s.depth + deeper c else s.depth⟩

/-- A spot after a text. -/
def Spot.run (s : Spot) (t : List Char) : Spot := t.foldl Spot.step s

/-- Outside of strings at a depth. -/
abbrev Spot.outside (d : Int) : Spot := ⟨.outside, d⟩

/-- In a string at a depth. -/
abbrev Spot.inside (d : Int) : Spot := ⟨.inside, d⟩

theorem Spot.run_append (s : Spot) (t u : List Char) : s.run (t ++ u) = (s.run t).run u :=
  List.foldl_append

/-! ## Passing over a text -/

/-- A text up to some rest leads from one spot to another, and before none of its characters it is
less deep than `low`. -/
def Passes (low : Int) (a : Spot) (s : List Char) (b : Spot) (rest : List Char) : Prop :=
  ∃ t, s = t ++ rest ∧ a.run t = b ∧ ∀ p c q, t = p ++ c :: q → low ≤ (a.run p).depth

variable {low d : Int} {a b e : Spot} {s rest rest' : List Char}

theorem Passes.refl (low : Int) (a : Spot) (s : List Char) : Passes low a s a s :=
  ⟨[], rfl, rfl, fun p c q h => by simp at h⟩

theorem Passes.trans (h : Passes low a s b rest) (h' : Passes low b rest e rest') :
    Passes low a s e rest' := by
  obtain ⟨t, rfl, hrun, hlow⟩ := h
  obtain ⟨u, rfl, hrun', hlow'⟩ := h'
  refine ⟨t ++ u, by rw [List.append_assoc], by rw [Spot.run_append, hrun, hrun'], ?_⟩
  intro p c q hsplit
  -- the character stands in the first text or in the second
  rcases List.append_eq_append_iff.mp hsplit.symm with ⟨m, rfl, hm⟩ | ⟨m, rfl, hm⟩
  · cases m with
    | nil =>
      rw [List.append_nil] at hrun
      rw [hrun]
      exact hlow' [] c q hm.symm
    | cons x m =>
      cases hm
      exact hlow p c m rfl
  · rw [Spot.run_append, hrun]
    exact hlow' m c q hm

theorem Passes.mono {low' : Int} (h : Passes low a s b rest) (hle : low' ≤ low) :
    Passes low' a s b rest := by
  obtain ⟨t, hs, hrun, hlow⟩ := h
  exact ⟨t, hs, hrun, fun p c q hsplit => hle.trans (hlow p c q hsplit)⟩

theorem Passes.step (a : Spot) (c : Char) (s : List Char) (h : low ≤ a.depth) :
    Passes low a (c :: s) (a.step c) s := by
  refine ⟨[c], rfl, rfl, fun p x q hsplit => ?_⟩
  cases p with
  | nil => exact h
  | cons y p =>
    have := (List.cons.inj hsplit).2
    simp at this

/-- A character that is no quote and no bracket. -/
def plain (c : Char) : Bool :=
  c ≠ '"' && c ≠ '\\' && c ≠ '{' && c ≠ '[' && c ≠ '}' && c ≠ ']'

theorem Passes.plain {c : Char} (hc : plain c) (s : List Char) :
    Passes d (.outside d) (c :: s) (.outside d) s := by
  have hstep : (Spot.outside d).step c = .outside d := by
    simp only [Lib.plain, Bool.and_eq_true, decide_eq_true_eq, ne_eq] at hc
    obtain ⟨⟨⟨⟨⟨hquote, hback⟩, hbrace⟩, hbracket⟩, hbrace'⟩, hbracket'⟩ := hc
    simp [Spot.step, Place.step, deeper, hquote, hback, hbrace, hbracket, hbrace', hbracket']
  have h := Passes.step (Spot.outside d) c s (le_refl d)
  rwa [hstep] at h

theorem Passes.skip (s : List Char) : Passes d (.outside d) s (.outside d) (Json.skip s) := by
  induction s with
  | nil => exact .refl _ _ _
  | cons c s ih =>
    by_cases hc : Json.blank c
    · have hskip : Json.skip (c :: s) = Json.skip s := List.dropWhile_cons_of_pos hc
      have hplain : Lib.plain c := by
        simp only [Json.blank, Bool.or_eq_true, decide_eq_true_eq] at hc
        rcases hc with ((rfl | rfl) | rfl) | rfl <;> decide
      rw [hskip]
      exact (Passes.plain hplain s).trans ih
    · rw [Json.skip_cons s (by simpa using hc)]
      exact .refl _ _ _

theorem Passes.quote (s : List Char) : Passes d (.outside d) ('"' :: s) (.inside d) s := by
  have hstep : (Spot.outside d).step '"' = .inside d := by simp [Spot.step, Place.step, deeper]
  have h := Passes.step (Spot.outside d) '"' s (le_refl d)
  rwa [hstep] at h

/-- A bracket that opens. -/
theorem Passes.opens {c : Char} (hc : c = '{' ∨ c = '[') (s : List Char) :
    Passes d (.outside d) (c :: s) (.outside (d + 1)) s := by
  have hstep : (Spot.outside d).step c = .outside (d + 1) := by
    rcases hc with rfl | rfl <;> simp [Spot.step, Place.step, deeper]
  have h := Passes.step (Spot.outside d) c s (le_refl d)
  rwa [hstep] at h

/-- A bracket that closes. -/
theorem Passes.closes {c : Char} (hc : c = '}' ∨ c = ']') (s : List Char) :
    Passes (d + 1) (.outside (d + 1)) (c :: s) (.outside d) s := by
  have hstep : (Spot.outside (d + 1)).step c = .outside d := by
    have hdepth : d + 1 + -1 = d := by omega
    rcases hc with rfl | rfl <;> simp [Spot.step, Place.step, deeper, hdepth]
  have h := Passes.step (Spot.outside (d + 1)) c s (le_refl (d + 1))
  rwa [hstep] at h

/-- A character in a string that neither ends it nor escapes another. -/
theorem Passes.inner {c : Char} (hquote : c ≠ '"') (hback : c ≠ '\\') (s : List Char) :
    Passes d (.inside d) (c :: s) (.inside d) s := by
  have hstep : (Spot.inside d).step c = .inside d := by
    simp [Spot.step, Place.step, hquote, hback]
  have h := Passes.step (Spot.inside d) c s (le_refl d)
  rwa [hstep] at h

theorem Passes.escape (c : Char) (s : List Char) :
    Passes d (.inside d) ('\\' :: c :: s) (.inside d) s :=
  (Passes.step (Spot.inside d) '\\' (c :: s) (le_refl d)).trans
    (Passes.step ⟨.escaped, d⟩ c s (le_refl d))

theorem hexValue_inner {c : Char} {n : Nat} (h : Json.hexValue c = some n) :
    c ≠ '"' ∧ c ≠ '\\' := by
  constructor <;>
  · rintro rfl
    revert h
    decide +revert

/-! ## Reading -/

namespace Value

open Json

variable {F : Type} {floats : Floats F}

theorem passes_readUnits {units : List (Char ⊕ Nat)} (h : readUnits s = some (units, rest)) :
    Passes d (.inside d) s (.outside d) rest := by
  fun_induction readUnits s generalizing units rest with
  | case1 => cases h
  | case2 rest' =>
    cases h
    exact Passes.step (Spot.inside d) '"' _ (le_refl d)
  | case3 a b c e rest' ih =>
    obtain ⟨unit, hunit, h⟩ := Option.bind_eq_some_iff.mp h
    obtain ⟨⟨units', rest''⟩, hunits, h⟩ := Option.bind_eq_some_iff.mp h
    cases h
    obtain ⟨na, ha, hunit⟩ := Option.bind_eq_some_iff.mp hunit
    obtain ⟨nb, hb, hunit⟩ := Option.bind_eq_some_iff.mp hunit
    obtain ⟨nc, hc, hunit⟩ := Option.bind_eq_some_iff.mp hunit
    obtain ⟨ne, he, -⟩ := Option.bind_eq_some_iff.mp hunit
    have ha := hexValue_inner ha
    have hb := hexValue_inner hb
    have hc := hexValue_inner hc
    have he := hexValue_inner he
    exact (Passes.escape 'u' _).trans ((Passes.inner ha.1 ha.2 _).trans
      ((Passes.inner hb.1 hb.2 _).trans ((Passes.inner hc.1 hc.2 _).trans
        ((Passes.inner he.1 he.2 _).trans (ih hunits)))))
  | case4 c rest' hne ih =>
    obtain ⟨c', -, h⟩ := Option.bind_eq_some_iff.mp h
    obtain ⟨⟨units', rest''⟩, hunits, h⟩ := Option.bind_eq_some_iff.mp h
    cases h
    exact (Passes.escape c _).trans (ih hunits)
  | case5 => cases h
  | case6 c rest' hquote hescape hunit hlow ih =>
    obtain ⟨⟨units', rest''⟩, hunits, h⟩ := Option.bind_eq_some_iff.mp h
    cases h
    have hback : c ≠ '\\' := by
      intro hback
      cases rest' with
      | nil => cases hunits
      | cons x rest' => exact hunit x rest' hback rfl
    exact (Passes.inner hquote hback _).trans (ih hunits)

theorem passes_parseString {value : List Nat} (h : parseString s = some (value, rest)) :
    Passes d (.outside d) ('"' :: s) (.outside d) rest := by
  obtain ⟨⟨units, rest'⟩, hunits, h⟩ := Option.map_eq_some_iff.mp h
  cases h
  exact (Passes.quote s).trans (passes_readUnits hunits)

theorem plain_of_numeral {c : Char} (h : numeral c) : plain c := by
  unfold plain
  simp only [Bool.and_eq_true, decide_eq_true_eq, ne_eq]
  refine ⟨⟨⟨⟨⟨?_, ?_⟩, ?_⟩, ?_⟩, ?_⟩, ?_⟩
  all_goals
    rintro rfl
    revert h
    decide

theorem passes_parseNumber {n : Number} (h : parseNumber s = some (n, rest)) :
    Passes d (.outside d) s (.outside d) rest := by
  obtain ⟨-, rfl⟩ := parseNumber_eq_some h
  clear h
  induction s with
  | nil => exact .refl _ _ _
  | cons c s ih =>
    by_cases hc : numeral c
    · rw [List.dropWhile_cons_of_pos hc]
      exact (Passes.plain (plain_of_numeral hc) s).trans ih
    · rw [List.dropWhile_cons_of_neg hc]
      exact .refl _ _ _

/-- An object is passed over one deeper than it stands, if members are. -/
theorem passes_object {fuel : Nat} {v : Value F}
    (hmember : ∀ {s rest : List Char} {k : List Nat} {v : Value F} {d : Int},
      parseMember floats fuel s = some ((k, v), rest) →
        Passes d (.outside d) s (.outside d) rest)
    (hmembers : ∀ {s rest : List Char} {ms : List (List Nat × Value F)} {d : Int},
      parseMembers floats fuel s = some (ms, rest) →
        Passes (d + 1) (.outside (d + 1)) s (.outside d) rest)
    (h : parse floats (fuel + 1) ('{' :: s) = some (v, rest)) :
    Passes (d + 1) (.outside (d + 1)) s (.outside d) rest := by
  simp only [parse] at h
  split at h
  · next hskip =>
    cases h
    have hclose := Passes.closes (d := d) (c := '}') (.inl rfl) rest
    rw [← hskip] at hclose
    exact (Passes.skip s).trans hclose
  · obtain ⟨⟨⟨k, v'⟩, rest₁⟩, hm, h⟩ := Option.bind_eq_some_iff.mp h
    obtain ⟨⟨ms, rest₂⟩, hms, h⟩ := Option.bind_eq_some_iff.mp h
    cases h
    exact (Passes.skip s).trans ((hmember hm).trans ((Passes.skip rest₁).trans (hmembers hms)))

mutual

/-- A value is passed over where it stands. -/
theorem passes_parse : ∀ (fuel : Nat) {s rest : List Char} {v : Value F} {d : Int},
    parse floats fuel s = some (v, rest) → Passes d (.outside d) s (.outside d) rest
  | 0, _, _, _, _, h => by cases h
  | fuel + 1, s, rest, v, d, h => by
    have hparse := h
    unfold parse at h
    split at h
    · cases h
      exact (Passes.plain (by decide) _).trans ((Passes.plain (by decide) _).trans
        ((Passes.plain (by decide) _).trans (Passes.plain (by decide) _)))
    · cases h
      exact (Passes.plain (by decide) _).trans ((Passes.plain (by decide) _).trans
        ((Passes.plain (by decide) _).trans (Passes.plain (by decide) _)))
    · cases h
      exact (Passes.plain (by decide) _).trans ((Passes.plain (by decide) _).trans
        ((Passes.plain (by decide) _).trans ((Passes.plain (by decide) _).trans
          (Passes.plain (by decide) _))))
    · obtain ⟨⟨value, rest'⟩, hstring, h⟩ := Option.map_eq_some_iff.mp h
      cases h
      exact passes_parseString hstring
    · next s =>
      have hopen := (Passes.opens (d := d) (c := '[') (.inr rfl) s).trans
        ((Passes.skip s).mono (by omega))
      split at h
      · next hskip =>
        cases h
        rw [hskip] at hopen
        exact hopen.trans ((Passes.closes (.inr rfl) _).mono (by omega))
      · obtain ⟨⟨v', rest₁⟩, hv, h⟩ := Option.bind_eq_some_iff.mp h
        obtain ⟨⟨vs, rest₂⟩, hvs, h⟩ := Option.bind_eq_some_iff.mp h
        cases h
        have hitems : Passes (d + 1) (.outside (d + 1)) (skip s) (.outside d) rest :=
          (passes_parse fuel hv).trans ((Passes.skip rest₁).trans (passes_parseItems fuel hvs))
        exact hopen.trans (hitems.mono (by omega))
    · next s =>
      have hobject := passes_object (d := d) (passes_parseMember fuel) (passes_parseMembers fuel)
        hparse
      exact (Passes.opens (.inl rfl) s).trans (hobject.mono (by omega))
    · obtain ⟨⟨n, rest'⟩, hnumber, h⟩ := Option.map_eq_some_iff.mp h
      cases h
      exact passes_parseNumber hnumber

theorem passes_parseItems : ∀ (fuel : Nat) {s rest : List Char} {vs : List (Value F)} {d : Int},
    parseItems floats fuel s = some (vs, rest) →
      Passes (d + 1) (.outside (d + 1)) s (.outside d) rest
  | 0, _, _, _, _, h => by cases h
  | fuel + 1, s, rest, vs, d, h => by
    unfold parseItems at h
    split at h
    · cases h
      exact Passes.closes (.inr rfl) _
    · next s =>
      obtain ⟨⟨v', rest₁⟩, hv, h⟩ := Option.bind_eq_some_iff.mp h
      obtain ⟨⟨vs', rest₂⟩, hvs, h⟩ := Option.bind_eq_some_iff.mp h
      cases h
      exact (Passes.plain (by decide) s).trans ((Passes.skip s).trans
        ((passes_parse fuel hv).trans ((Passes.skip rest₁).trans (passes_parseItems fuel hvs))))
    · cases h

theorem passes_parseMember : ∀ (fuel : Nat) {s rest : List Char} {k : List Nat} {v : Value F}
    {d : Int}, parseMember floats fuel s = some ((k, v), rest) →
      Passes d (.outside d) s (.outside d) rest
  | 0, _, _, _, _, _, h => by cases h
  | fuel + 1, s, rest, k, v, d, h => by
    unfold parseMember at h
    split at h
    · obtain ⟨⟨k', rest₁⟩, hk, h⟩ := Option.bind_eq_some_iff.mp h
      dsimp only at h
      split at h
      · next rest₂ hskip =>
        obtain ⟨⟨v', rest₃⟩, hv, h⟩ := Option.bind_eq_some_iff.mp h
        cases h
        have hcolon := Passes.skip (d := d) rest₁
        rw [hskip] at hcolon
        exact (passes_parseString hk).trans (hcolon.trans ((Passes.plain (by decide) rest₂).trans
          ((Passes.skip rest₂).trans (passes_parse fuel hv))))
      · cases h
    · cases h

theorem passes_parseMembers : ∀ (fuel : Nat) {s rest : List Char}
    {ms : List (List Nat × Value F)} {d : Int}, parseMembers floats fuel s = some (ms, rest) →
      Passes (d + 1) (.outside (d + 1)) s (.outside d) rest
  | 0, _, _, _, _, h => by cases h
  | fuel + 1, s, rest, ms, d, h => by
    unfold parseMembers at h
    split at h
    · cases h
      exact Passes.closes (.inl rfl) _
    · next s =>
      obtain ⟨⟨⟨k, v⟩, rest₁⟩, hm, h⟩ := Option.bind_eq_some_iff.mp h
      obtain ⟨⟨ms', rest₂⟩, hms, h⟩ := Option.bind_eq_some_iff.mp h
      cases h
      exact (Passes.plain (by decide) s).trans ((Passes.skip s).trans
        ((passes_parseMember fuel hm).trans
          ((Passes.skip rest₁).trans (passes_parseMembers fuel hms))))
    · cases h

end

/-- A text that is read ends outside of strings, with every bracket closed. -/
theorem run_parseText {v : Value F} (h : parseText floats s = some v) :
    (Spot.outside 0).run s = .outside 0 := by
  obtain ⟨⟨v', rest⟩, hv, h⟩ := Option.bind_eq_some_iff.mp h
  dsimp only at h
  split_ifs at h with hend
  have htail := Passes.skip (d := 0) rest
  rw [hend] at htail
  obtain ⟨t, ht, hrun, -⟩ := (Passes.skip s).trans ((passes_parse _ hv).trans htail)
  rw [ht, List.append_nil, hrun]

end Value

/-! ## Torn texts -/

/-- Two readers of one text, one of which takes for strings what the other takes for what is
between them; or one that is stuck. -/
def Mirrored (p q : Place) : Prop :=
  p = .stuck ∨ q = .stuck ∨ (p = .outside ∧ q = .inside) ∨ (p = .inside ∧ q = .outside)

theorem Mirrored.step {p q : Place} (h : Mirrored p q) (c : Char) :
    Mirrored (p.step c) (q.step c) := by
  unfold Mirrored at h ⊢
  rcases h with rfl | rfl | ⟨rfl, rfl⟩ | ⟨rfl, rfl⟩
  · exact .inl rfl
  · exact .inr (.inl rfl)
  all_goals
    simp only [Place.step]
    split_ifs <;> simp

/-- Where one of them ends outside of strings, the other does not. -/
theorem Mirrored.run {p q : Place} (h : Mirrored p q) (t : List Char)
    (ht : t.foldl Place.step p = .outside) : t.foldl Place.step q ≠ .outside := by
  induction t generalizing p q with
  | nil =>
    rintro rfl
    unfold Mirrored at h
    rw [List.foldl_nil] at ht
    simp [ht] at h
  | cons c t ih => exact ih (h.step c) ht

theorem stuck_run (t : List Char) : t.foldl Place.step .stuck = .stuck := by
  induction t with
  | nil => rfl
  | cons c t ih => exact ih

/-- The text of an object: below its first brace everything is one deeper, up to its last. -/
def ObjectText (t : List Char) : Prop :=
  ∃ u, t = '{' :: u ∧ ∀ d, Passes (d + 1) (.outside (d + 1)) u (.outside d) []

theorem ObjectText.run {t : List Char} (h : ObjectText t) (d : Int) :
    (Spot.outside d).run t = .outside d := by
  obtain ⟨u, rfl, hpass⟩ := h
  obtain ⟨t, ht, hrun, -⟩ := (Passes.opens (.inl rfl) u).trans ((hpass d).mono (by omega))
  rw [ht, List.append_nil, hrun]

/-- The beginning of an object's text leaves the object open. -/
theorem ObjectText.depth {p t : List Char} {c : Char} {q : List Char} (h : ObjectText t)
    (hp : p ≠ []) (hsplit : t = p ++ c :: q) : 1 ≤ ((Spot.outside 0).run p).depth := by
  obtain ⟨u, rfl, hpass⟩ := h
  obtain ⟨x, p, rfl⟩ := List.exists_cons_of_ne_nil hp
  rw [List.cons_append] at hsplit
  obtain ⟨rfl, hu⟩ := List.cons.inj hsplit
  obtain ⟨u', hu', -, hlow⟩ := hpass 0
  rw [List.append_nil] at hu'
  exact hlow p c q (hu' ▸ hu)

/-- What follows the beginning of an object's text in place of the rest of it does not end where
a text has to. -/
theorem ObjectText.torn {p t t' : List Char} {c : Char} {q : List Char} (h : ObjectText t)
    (hp : p ≠ []) (hsplit : t = p ++ c :: q) (h' : ObjectText t') :
    (Spot.outside 0).run (p ++ t') ≠ .outside 0 := by
  have hdepth := h.depth hp hsplit
  rw [Spot.run_append]
  generalize (Spot.outside 0).run p = a at hdepth
  have hplace (s : List Char) (b : Spot) : (b.run s).place = s.foldl Place.step b.place := by
    induction s generalizing b with
    | nil => rfl
    | cons c s ih => exact ih (b.step c)
  have hrun := h'.run
  obtain ⟨u, ht', -⟩ := h'
  have hfrom : (t'.foldl Place.step .outside) = .outside := by
    rw [← hplace t' (.outside 0), hrun]
  intro hend
  have hend' : t'.foldl Place.step a.place = .outside := by
    rw [← hplace, hend]
  obtain ⟨place, d⟩ := a
  cases place with
  | outside =>
    have hd : Spot.outside d = .outside 0 := (hrun d).symm.trans hend
    injection hd with _ hd
    have hdepth : 1 ≤ d := hdepth
    omega
  | inside => exact Mirrored.run (.inr (.inr (.inl ⟨rfl, rfl⟩))) t' hfrom hend'
  | escaped =>
    -- the brace is what was escaped, and the rest is read in a string
    rw [ht', List.foldl_cons] at hfrom hend'
    exact Mirrored.run (.inr (.inr (.inl ⟨rfl, rfl⟩))) u hfrom hend'
  | stuck =>
    rw [stuck_run] at hend'
    cases hend'

namespace Value

open Json

variable {F : Type} {floats : Floats F}

/-- An object as it is written. -/
theorem objectText {v : Value F} {members : List (List Char × Json)}
    (h : spell floats v = some (.obj members)) :
    ObjectText (compact Json.escape (.obj members)) := by
  obtain ⟨u, hu⟩ : ∃ u, compact Json.escape (.obj members) = '{' :: u := by
    cases members with
    | nil => exact ⟨_, by simp only [compact]; rfl⟩
    | cons m ms => exact ⟨_, by simp only [compact]; rfl⟩
  refine ⟨u, hu, fun d => ?_⟩
  have hparse : parse floats ((compact Json.escape (.obj members)).length + 1)
      (compact Json.escape (.obj members) ++ []) = some (v, []) :=
    parse_spell readBack_compact h (by omega) ends_nil
  rw [List.append_nil, hu] at hparse
  exact passes_object (passes_parseMember _) (passes_parseMembers _) hparse

/-- The beginning of an object's text, and another object's text after it, are not read. -/
theorem parseText_torn {p t t' : List Char} {c : Char} {q : List Char} (h : ObjectText t)
    (hp : p ≠ []) (hsplit : t = p ++ c :: q) (h' : ObjectText t') :
    parseText floats (p ++ t') = none := by
  rw [Option.eq_none_iff_forall_not_mem]
  intro v hv
  exact h.torn hp hsplit h' (run_parseText hv)

/-- A whole text of a value, and another text after it, are not read. -/
theorem parseText_joined {v : Value F} {members : List (List Char × Json)} {t' : List Char}
    (h : spell floats v = some (.obj members)) (h' : ObjectText t') :
    parseText floats (compact Json.escape (.obj members) ++ t') = none := by
  obtain ⟨u, rfl, -⟩ := h'
  have hfuel : (compact Json.escape (.obj members)).length ≤
      (compact Json.escape (.obj members) ++ '{' :: u).length + 1 := by
    rw [List.length_append]
    omega
  have hrest : skip ('{' :: u) = '{' :: u := skip_cons u (by decide)
  unfold parseText
  rw [skip_compact, parse_spell readBack_compact h hfuel (ends_cons (by decide))]
  simp [hrest]

end Value

end Lib
