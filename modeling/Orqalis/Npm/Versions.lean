import Orqalis.Domain.Base

/-!
# Comparing versions

The npm package compares the installed version with the released one itself: a regular
expression takes a version apart, numbers are compared as JavaScript numbers, and identifiers of
pre-releases as numbers or as texts.

The expression takes more than semantic versions, such as leading zeros and empty identifiers:
exactly the texts of well-formed parts (`exec_eq_some_iff`).
-/

namespace Orqalis

namespace Npm

/-! ## JavaScript numbers -/

/-- The nearest double of a natural number, an even one between two; `none` is infinity. -/
def toDouble (n : Nat) : Option Nat :=
  if n < 2 ^ 53 then some n
  else
    let unit := 2 ^ (n.log2 - 52)
    let below := n / unit
    let rounded :=
      if 2 * (n % unit) < unit then below
      else if unit < 2 * (n % unit) then below + 1
      else below + below % 2
    if rounded * unit < 2 ^ 1024 then some (rounded * unit) else none

/-- The number that digits spell. -/
def digitsValue (digits : List Char) : Nat := Nat.ofDigitChars 10 digits 0

/-- `Number`, of digits. -/
def number (digits : List Char) : Option Nat := toDouble (digitsValue digits)

/-- What the comparison answers: -1, 0, 1, or what is not a number. -/
inductive Sign
  | negative
  | zero
  | positive
  | nan
deriving DecidableEq, Repr

/-- The sign of the difference of two numbers. Two infinities have none. -/
def signOfDifference : Option Nat → Option Nat → Sign
  | some m, some n => if m < n then .negative else if m = n then .zero else .positive
  | none, some _ => .positive
  | some _, none => .negative
  | none, none => .nan

/-! ## The pattern -/

/-- `[0-9A-Za-z.-]` -/
def identifierChar (c : Char) : Bool := c.isAlphanum || c = '.' || c = '-'

/-- What the pattern captures. -/
structure Groups where
  major : List Char
  minor : List Char
  patch : List Char
  preRelease : Option (List Char)
deriving DecidableEq

/-- `\d+`: the digits, and the text after them. -/
def someDigits (s : List Char) : Option (List Char × List Char) :=
  if s.takeWhile Char.isDigit = [] then none
  else some (s.takeWhile Char.isDigit, s.dropWhile Char.isDigit)

/-- `\.`: the text after it. -/
def dot : List Char → Option (List Char)
  | [] => none
  | c :: s => if c = '.' then some s else none

/-- `(?:\+[0-9A-Za-z.-]+)?$` -/
def buildEnd : List Char → Bool
  | [] => true
  | c :: s => c = '+' && s ≠ [] && s.all identifierChar

/-- `(?:-([0-9A-Za-z.-]+))?(?:\+[0-9A-Za-z.-]+)?$`: what the group captures. -/
def preReleaseEnd (s : List Char) : Option (Option (List Char)) :=
  match s with
  | '-' :: s =>
    if s.takeWhile identifierChar ≠ [] ∧ buildEnd (s.dropWhile identifierChar) then
      some (some (s.takeWhile identifierChar))
    else none
  | s => if buildEnd s then some none else none

/-- `pattern.exec`: no part of the pattern can take less than the most it can take, so there is
one way to match. -/
def exec (s : List Char) : Option Groups :=
  (someDigits s).bind fun major =>
  (dot major.2).bind fun s =>
  (someDigits s).bind fun minor =>
  (dot minor.2).bind fun s =>
  (someDigits s).bind fun patch =>
  (preReleaseEnd patch.2).map fun preRelease => ⟨major.1, minor.1, patch.1, preRelease⟩

/-! ## The comparison -/

/-- `/^\d+$/.test` -/
def isNumeric (part : List Char) : Bool := part ≠ [] && part.all Char.isDigit

/-- `<` of two texts, for characters that are one code unit each. -/
def textLess : List Char → List Char → Bool
  | _, [] => false
  | [], _ :: _ => true
  | c :: s, d :: t => c.toNat < d.toNat || (c = d && textLess s t)

/-- The loop over the numbers of the versions. -/
def compareNumbers : List (List Char) → List (List Char) → Sign
  | a :: as, b :: bs =>
    if signOfDifference (number a) (number b) ≠ .zero then
      signOfDifference (number a) (number b)
    else compareNumbers as bs
  | _, _ => .zero

/-- The loop over the identifiers of two pre-releases. -/
def compareParts : List (List Char) → List (List Char) → Sign
  | [], [] => .zero
  | [], _ :: _ => .negative
  | _ :: _, [] => .positive
  | a :: as, b :: bs =>
    if isNumeric a ∧ isNumeric b then
      if signOfDifference (number a) (number b) ≠ .zero then
        signOfDifference (number a) (number b)
      else compareParts as bs
    else if isNumeric a ≠ isNumeric b then
      if isNumeric a then .negative else .positive
    else if textLess a b then .negative
    else if textLess b a then .positive
    else compareParts as bs

/-- The comparison of the pre-releases. -/
def comparePreReleases : Option (List Char) → Option (List Char) → Sign
  | none, none => .zero
  | none, some _ => .positive
  | some _, none => .negative
  | some a, some b => compareParts (a.splitOn '.') (b.splitOn '.')

/-- The comparison of what was captured. -/
def compareGroups (a b : Groups) : Sign :=
  if compareNumbers [a.major, a.minor, a.patch] [b.major, b.minor, b.patch] ≠ .zero then
    compareNumbers [a.major, a.minor, a.patch] [b.major, b.minor, b.patch]
  else comparePreReleases a.preRelease b.preRelease

/-- `compareVersions` -/
def compareVersions (left right : List Char) : Except String Sign :=
  match exec left, exec right with
  | some a, some b => .ok (compareGroups a b)
  | _, _ => .error "Cannot compare installed and registry versions."

/-! ## What the pattern takes -/

/-- The parts of the text of a version. -/
structure Parts where
  major : List Char
  minor : List Char
  patch : List Char
  preRelease : Option (List Char)
  build : Option (List Char)

/-- A part behind its mark. -/
def marked (mark : Char) : Option (List Char) → List Char
  | none => []
  | some s => mark :: s

/-- A text of identifiers. -/
def IsIdentifiers (s : List Char) : Prop := s ≠ [] ∧ s.all identifierChar

namespace Parts

/-- The rest of the text after the third number. -/
def ending (p : Parts) : List Char := marked '-' p.preRelease ++ marked '+' p.build

def text (p : Parts) : List Char :=
  p.major ++ '.' :: (p.minor ++ '.' :: (p.patch ++ p.ending))

/-- Three numbers, and identifiers behind the marks. -/
structure WellFormed (p : Parts) : Prop where
  major : isNumeric p.major
  minor : isNumeric p.minor
  patch : isNumeric p.patch
  preRelease : ∀ s ∈ p.preRelease, IsIdentifiers s
  build : ∀ s ∈ p.build, IsIdentifiers s

def groups (p : Parts) : Groups := ⟨p.major, p.minor, p.patch, p.preRelease⟩

end Parts

theorem isNumeric_iff {s : List Char} : isNumeric s ↔ s ≠ [] ∧ ∀ c ∈ s, c.isDigit := by
  simp [isNumeric]

/-- A text does not go on with a digit. -/
def EndsDigits (s : List Char) : Prop := ∀ c ∈ s.head?, c.isDigit = false

theorem someDigits_append {digits rest : List Char} (h : isNumeric digits)
    (hrest : EndsDigits rest) : someDigits (digits ++ rest) = some (digits, rest) := by
  obtain ⟨hne, hall⟩ := isNumeric_iff.mp h
  have htake : rest.takeWhile Char.isDigit = [] := by
    cases rest with
    | nil => rfl
    | cons c rest => exact List.takeWhile_cons_of_neg (by simp [hrest c rfl])
  have hdrop : rest.dropWhile Char.isDigit = rest := by
    cases rest with
    | nil => rfl
    | cons c rest => exact List.dropWhile_cons_of_neg (by simp [hrest c rfl])
  unfold someDigits
  rw [List.takeWhile_append_of_pos hall, List.dropWhile_append_of_pos hall, htake, hdrop,
    List.append_nil, if_neg hne]

theorem someDigits_eq_some {s digits rest : List Char} (h : someDigits s = some (digits, rest)) :
    isNumeric digits ∧ s = digits ++ rest := by
  unfold someDigits at h
  split_ifs at h with hnil
  obtain ⟨rfl, rfl⟩ := Prod.mk.inj (Option.some.inj h)
  refine ⟨isNumeric_iff.mpr ⟨hnil, ?_⟩, List.takeWhile_append_dropWhile.symm⟩
  exact List.all_eq_true.mp List.all_takeWhile

theorem dot_eq_some {s rest : List Char} : dot s = some rest ↔ s = '.' :: rest := by
  cases s with
  | nil => simp [dot]
  | cons c s =>
    simp only [dot]
    split_ifs with h
    · simp [h]
    · simp [h]

theorem buildEnd_iff {s : List Char} :
    buildEnd s ↔ ∃ build, (∀ t ∈ build, IsIdentifiers t) ∧ s = marked '+' build := by
  constructor
  · intro h
    cases s with
    | nil => exact ⟨none, by simp, rfl⟩
    | cons c s =>
      simp only [buildEnd, Bool.and_eq_true, decide_eq_true_eq] at h
      obtain ⟨⟨rfl, hne⟩, hall⟩ := h
      refine ⟨some s, ?_, rfl⟩
      rintro t ⟨⟩
      exact ⟨hne, hall⟩
  · rintro ⟨build, hbuild, rfl⟩
    cases build with
    | none => rfl
    | some t =>
      obtain ⟨hne, hall⟩ := hbuild t rfl
      simp [marked, buildEnd, hne, hall]

/-- The mark of build metadata ends the identifiers before it. -/
theorem takeWhile_marked {s : List Char} (hs : s.all identifierChar) (build : Option (List Char)) :
    (s ++ marked '+' build).takeWhile identifierChar = s ∧
      (s ++ marked '+' build).dropWhile identifierChar = marked '+' build := by
  have hall := List.all_eq_true.mp hs
  rw [List.takeWhile_append_of_pos hall, List.dropWhile_append_of_pos hall]
  have hplus : identifierChar '+' = false := by decide
  cases build with
  | none => simp [marked]
  | some t => simp [marked, hplus]

theorem preReleaseEnd_eq_some {s : List Char} {preRelease : Option (List Char)} :
    preReleaseEnd s = some preRelease ↔ ∃ build, (∀ t ∈ preRelease, IsIdentifiers t) ∧
      (∀ t ∈ build, IsIdentifiers t) ∧ s = marked '-' preRelease ++ marked '+' build := by
  constructor
  · intro h
    unfold preReleaseEnd at h
    split at h
    · rename_i s
      split_ifs at h with hmatch
      cases h
      obtain ⟨build, hbuild, hrest⟩ := buildEnd_iff.mp hmatch.2
      refine ⟨build, ?_, hbuild, ?_⟩
      · rintro t ⟨⟩
        exact ⟨hmatch.1, List.all_takeWhile⟩
      · rw [marked, ← hrest, List.cons_append, List.takeWhile_append_dropWhile]
    · split_ifs at h with hmatch
      cases h
      obtain ⟨build, hbuild, rfl⟩ := buildEnd_iff.mp hmatch
      exact ⟨build, by simp, hbuild, rfl⟩
  · rintro ⟨build, hpre, hbuild, rfl⟩
    have hend : buildEnd (marked '+' build) := buildEnd_iff.mpr ⟨build, hbuild, rfl⟩
    cases preRelease with
    | some t =>
      obtain ⟨hne, hall⟩ := hpre t rfl
      obtain ⟨htake, hdrop⟩ := takeWhile_marked hall build
      simp [marked.eq_2 '-', preReleaseEnd, htake, hdrop, hend, hne]
    | none =>
      unfold preReleaseEnd
      cases build with
      | none => rfl
      | some t =>
        split
        · rename_i h
          exact absurd (List.cons.inj h).1 (by decide)
        · exact if_pos hend

/-- The pattern matches the texts of well-formed parts, and captures these parts. -/
theorem exec_eq_some_iff {s : List Char} {g : Groups} :
    exec s = some g ↔ ∃ p : Parts, p.WellFormed ∧ p.text = s ∧ p.groups = g := by
  unfold exec
  simp only [Option.bind_eq_some_iff, Option.map_eq_some_iff, Prod.exists]
  constructor
  · rintro ⟨major, s₁, hone, s₂, hdot, minor, s₃, htwo, s₄, hdot', patch, s₅, hthree,
      preRelease, hend, rfl⟩
    obtain ⟨hmajor, rfl⟩ := someDigits_eq_some hone
    obtain rfl := dot_eq_some.mp hdot
    obtain ⟨hminor, rfl⟩ := someDigits_eq_some htwo
    obtain rfl := dot_eq_some.mp hdot'
    obtain ⟨hpatch, rfl⟩ := someDigits_eq_some hthree
    obtain ⟨build, hpre, hbuild, rfl⟩ := preReleaseEnd_eq_some.mp hend
    exact ⟨⟨major, minor, patch, preRelease, build⟩, ⟨hmajor, hminor, hpatch, hpre, hbuild⟩, rfl,
      rfl⟩
  · rintro ⟨p, hp, rfl, rfl⟩
    have hdot : ∀ t, EndsDigits ('.' :: t) := by
      rintro t c ⟨⟩
      decide
    have hending : EndsDigits p.ending := by
      unfold Parts.ending
      cases p.preRelease with
      | some t =>
        rintro c ⟨⟩
        decide
      | none =>
        cases p.build with
        | some t =>
          rintro c ⟨⟩
          decide
        | none =>
          intro c hc
          cases hc
    exact ⟨_, _, someDigits_append hp.major (hdot _), _, dot_eq_some.mpr rfl,
      _, _, someDigits_append hp.minor (hdot _), _, dot_eq_some.mpr rfl,
      _, _, someDigits_append hp.patch hending, _,
      preReleaseEnd_eq_some.mpr ⟨p.build, hp.preRelease, hp.build, rfl⟩, rfl⟩

end Npm

end Orqalis
