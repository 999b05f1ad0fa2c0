import Orqalis.Domain.Base
import Orqalis.Lib.Marker
import Orqalis.Lib.Outcome
import Orqalis.Lib.Utf8

/-!
# The documentation of runs

A run documents its accepted changes in a text file of the repository, in a block between two
markers that name the run. A later write of the same run replaces its block; the first one is
appended to the text.

The file is read with its line ends translated, and a block is looked for wherever its first marker
stands. So what the code means to do, replace one region and nothing else, it does where the
document has no carriage return and its markers are those of whole blocks, and where what is
written has neither (`documentation_framed`).
-/

namespace Orqalis

open Lib Lib.Outcome Lib.Text

namespace DocumentationService

/-- An identifier, by its text. -/
structure Identifier where
  text : List Char
  length : text.length = 36
  spelled : text.all fun c => c.isDigit || ('a' ≤ c && c ≤ 'f') || c = '-'
deriving DecidableEq

/-- A changed file. -/
structure Change where
  status : List Char
  path : List Char
  addedLines : Nat
  deletedLines : Nat

/-- A criterion. -/
structure Criterion where
  key : List Char
  status : List Char
  kind : List Char
  evidenceRefs : List Identifier

/-- What is documented. -/
structure Contribution where
  run : Identifier
  goal : List Char
  baseCommit : List Char
  goalVersion : Nat
  review : Identifier
  changes : List Change
  criteria : List Criterion

/-- The line of a changed file. -/
def Change.line (change : Change) : List Char :=
  "- ".toList ++ change.status ++ ": ".toList ++ change.path ++ " (+".toList ++
    Nat.toDigits 10 change.addedLines ++ ['/', '-'] ++ Nat.toDigits 10 change.deletedLines ++ [')']

/-- The line of a criterion. -/
def Criterion.line (criterion : Criterion) : List Char :=
  "- ".toList ++ criterion.key ++ ": ".toList ++ criterion.status ++ " (".toList ++
    criterion.kind ++ "); evidence: ".toList ++
    List.intercalate ", ".toList (criterion.evidenceRefs.map Identifier.text)

/-- What is written of a run. -/
def Contribution.content (c : Contribution) : List Char :=
  let lines :=
    ["## Orqalis run ".toList ++ c.run.text, [], c.goal, [],
      "Base commit: ".toList ++ c.baseCommit,
      "Goal version: ".toList ++ Nat.toDigits 10 c.goalVersion,
      "Accepted review: ".toList ++ c.review.text, [], "Changes:".toList, []] ++
    c.changes.map Change.line ++ [[], "Validation:".toList, []] ++ c.criteria.map Criterion.line
  List.intercalate ['\n'] lines ++ ['\n']

/-- The marker before the block of a run. -/
def beginMarker (run : Identifier) : List Char :=
  '<' :: ("!-- orqalis:".toList ++ run.text ++ ":begin -->".toList)

/-- The marker after it. -/
def endMarker (run : Identifier) : List Char :=
  '<' :: ("!-- orqalis:".toList ++ run.text ++ ":end -->".toList)

/-- The block of a run. -/
def block (run : Identifier) (content : List Char) : List Char :=
  beginMarker run ++ '\n' :: content ++ endMarker run

/-- Replace the block of a run, or append it. -/
def update (original : List Char) (run : Identifier) (content : List Char) :
    Except Error (List Char) :=
  match splitOnce (beginMarker run) original with
  | some (before, after) =>
    match splitOnce (endMarker run) (beginMarker run ++ after) with
    | none => .error (.conflict "Existing run documentation marker is incomplete")
    | some (_, rest) => .ok (before ++ block run content ++ rest)
  | none => .ok (rstrip original ++ ['\n', '\n'] ++ block run content ++ ['\n'])

/-- What the store remembers of a write. -/
structure Artifact (H : Type) where
  run : Identifier
  review : Identifier
  contentHash : H

/-- The document, if there is one, and what the store remembers. -/
structure DocumentState (H : Type) where
  document : Option (List Char) := none
  artifacts : List (Artifact H) := []

/-- What the service uses: the hash of a text, whether it is safe, and the largest size of a
file. -/
structure Host (H : Type) where
  sha256 : List Char → H
  safe : List Char → Bool
  maxFileBytes : Nat

variable {H : Type} [DecidableEq H] (host : Host H)

/-- The artifact of a review, if it was documented. -/
def existing (s : DocumentState H) (c : Contribution) : Option (Artifact H) :=
  s.artifacts.find? fun a => a.run = c.run && a.review = c.review

/-- `ScopedFilesystem.write` -/
def writeFile (content : List Char) : Except Error H :=
  if host.maxFileBytes < (Utf8.encodeText content).length || !host.safe content then
    .error (.policyDenied "Write content exceeds policy or contains sensitive data")
  else .ok (host.sha256 content)

/-- Write the documentation of a run to a document. -/
def write (c : Contribution) (s : DocumentState H) : Except Error (DocumentState H) :=
  match existing s c with
  | some a =>
    if s.document.map host.sha256 = some a.contentHash then .ok s
    else .error (.conflict "Documentation artifact changed after its checkpoint")
  | none =>
    if host.safe c.content = false then
      .error (.policyDenied "Unsafe documentation content")
    else
      let original := newlines (s.document.getD [])
      if host.safe original = false then
        .error (.policyDenied "Existing documentation contains sensitive data")
      else do
        let content ← update original c.run c.content
        let digest ← writeFile host content
        return { document := some content
                 artifacts := ⟨c.run, c.review, digest⟩ :: s.artifacts }

/-! ## Markers -/

variable {run run' : Identifier} {a b c : List Char}

theorem notMem_tail (run : Identifier) (kind : List Char) (h : '<' ∉ kind) :
    '<' ∉ "!-- orqalis:".toList ++ run.text ++ kind := by
  have hname : '<' ∉ run.text := by
    intro hmem
    exact absurd (List.all_eq_true.mp run.spelled '<' hmem) (by decide)
  have hstart : '<' ∉ "!-- orqalis:".toList := by decide
  simp only [List.mem_append, not_or]
  exact ⟨⟨hstart, hname⟩, h⟩

theorem notMem_begin (run : Identifier) :
    '<' ∉ "!-- orqalis:".toList ++ run.text ++ ":begin -->".toList :=
  notMem_tail run _ (by decide)

theorem notMem_end (run : Identifier) :
    '<' ∉ "!-- orqalis:".toList ++ run.text ++ ":end -->".toList :=
  notMem_tail run _ (by decide)

/-- What a text begins with after a marker's start: the run and the kind of marker. -/
theorem same_of_marker {kind kind' : List Char}
    (h : '<' :: ("!-- orqalis:".toList ++ run.text ++ kind) <+:
      '<' :: ("!-- orqalis:".toList ++ run'.text ++ kind')) :
    run = run' ∧ kind <+: kind' := by
  obtain ⟨y, hy⟩ := h
  have htail : run.text ++ (kind ++ y) = run'.text ++ kind' := by simpa using hy
  obtain ⟨htext, hkind⟩ := List.append_inj htail (run.length.trans run'.length.symm)
  refine ⟨?_, y, hkind⟩
  cases run
  cases run'
  cases htext
  rfl

theorem eq_of_begin (h : beginMarker run <+: beginMarker run' ++ a) : run = run' := by
  unfold beginMarker at h
  rw [List.cons_append, List.append_assoc _ _ a] at h
  exact (same_of_marker h).1

theorem not_begin_of_end : ¬ beginMarker run <+: endMarker run' ++ a := by
  unfold beginMarker endMarker
  intro h
  rw [List.cons_append, List.append_assoc _ _ a] at h
  obtain ⟨y, hy⟩ := (same_of_marker h).2
  revert hy
  simp

theorem not_end_of_begin : ¬ endMarker run <+: beginMarker run' ++ a := by
  unfold beginMarker endMarker
  intro h
  rw [List.cons_append, List.append_assoc _ _ a] at h
  obtain ⟨y, hy⟩ := (same_of_marker h).2
  revert hy
  simp

/-- Whether a text holds no first marker of any run. -/
def Unmarked (a : List Char) : Prop := ∀ run, ¬ beginMarker run <:+: a

/-- A marker is not in a text and another marker and what follows it, if it is in neither text and
not that marker. -/
theorem begin_infix_append (h : beginMarker run <:+: a ++ beginMarker run' ++ b) :
    beginMarker run <:+: a ∨ run = run' ∨ beginMarker run <:+: b := by
  have hcons : a ++ beginMarker run' ++ b =
      a ++ '<' :: ("!-- orqalis:".toList ++ run'.text ++ ":begin -->".toList ++ b) := by
    simp [beginMarker]
  rw [hcons] at h
  rcases (infix_append (notMem_begin run)).mp h with h | h
  · exact .inl h
  · rcases List.infix_cons_iff.mp h with h | h
    · exact .inr (.inl (eq_of_begin h))
    · exact .inr (.inr (infix_of_notMem (notMem_begin run') h))

theorem begin_infix_append_end (h : beginMarker run <:+: a ++ endMarker run' ++ b) :
    beginMarker run <:+: a ∨ beginMarker run <:+: b := by
  have hcons : a ++ endMarker run' ++ b =
      a ++ '<' :: ("!-- orqalis:".toList ++ run'.text ++ ":end -->".toList ++ b) := by
    simp [endMarker]
  rw [hcons] at h
  rcases (infix_append (notMem_begin run)).mp h with h | h
  · exact .inl h
  · rcases List.infix_cons_iff.mp h with h | h
    · exact absurd h not_begin_of_end
    · exact .inr (infix_of_notMem (notMem_end run') h)

/-- The first marker of a run is found after a text without it. -/
theorem splitOnce_begin (ha : ¬ beginMarker run <:+: a) (b : List Char) :
    splitOnce (beginMarker run) (a ++ beginMarker run ++ b) = some (a, b) := by
  have hcons : a ++ beginMarker run ++ b =
      a ++ '<' :: ("!-- orqalis:".toList ++ run.text ++ ":begin -->".toList ++ b) := by
    simp [beginMarker]
  have hfound : splitOnce (beginMarker run)
      ('<' :: ("!-- orqalis:".toList ++ run.text ++ ":begin -->".toList ++ b)) = some ([], b) :=
    splitOnce_append (List.cons_ne_nil _ _) b
  rw [hcons]
  unfold beginMarker at ha hfound ⊢
  rw [splitOnce_skip (notMem_begin run) ha, hfound]
  simp

/-- The last marker of a run is found after its first one and a text without it. -/
theorem splitOnce_end (ha : ¬ endMarker run <:+: a) (b : List Char) :
    splitOnce (endMarker run) (beginMarker run ++ (a ++ endMarker run ++ b)) =
      some (beginMarker run ++ a, b) := by
  have hbegin : ¬ endMarker run <:+: beginMarker run ++ a := by
    intro h
    rcases List.infix_cons_iff.mp h with h | h
    · exact not_end_of_begin h
    · exact ha (infix_of_notMem (notMem_begin run) h)
  have hcons : beginMarker run ++ (a ++ endMarker run ++ b) = (beginMarker run ++ a) ++
      '<' :: ("!-- orqalis:".toList ++ run.text ++ ":end -->".toList ++ b) := by
    simp [endMarker]
  have hfound : splitOnce (endMarker run)
      ('<' :: ("!-- orqalis:".toList ++ run.text ++ ":end -->".toList ++ b)) = some ([], b) :=
    splitOnce_append (List.cons_ne_nil _ _) b
  rw [hcons]
  unfold endMarker at hbegin hfound ⊢
  rw [splitOnce_skip (notMem_end run) hbegin, hfound]
  simp

/-! ## Documents -/

/-- Whether a text has no carriage return and no first marker of any run. -/
structure Plain (a : List Char) : Prop where
  line : '\r' ∉ a
  unmarked : Unmarked a

/-- The block of a run, with the text after it. -/
structure Section where
  run : Identifier
  body : List Char
  after : List Char

/-- The text of a block, with the text after it. -/
def Section.text (x : Section) : List Char :=
  beginMarker x.run ++ (x.body ++ endMarker x.run ++ x.after)

/-- Whether a block holds no markers of its own. -/
structure Section.Sound (x : Section) : Prop where
  body : Plain x.body
  closed : ¬ endMarker x.run <:+: x.body
  after : Plain x.after

/-- A document of whole blocks, one for each of some runs. -/
structure Document where
  lead : List Char
  sections : List Section
  distinct : (sections.map Section.run).Nodup
  plain : Plain lead
  sound : ∀ x ∈ sections, x.Sound

/-- The text of a document. -/
def Document.text (d : Document) : List Char := d.lead ++ d.sections.flatMap Section.text

/-- What the block of a run holds. -/
def Document.body? (d : Document) (run : Identifier) : Option (List Char) :=
  (d.sections.find? fun x => x.run = run).map Section.body

variable {d d' : Document} {x : Section} {sections before after : List Section}
  {content body : List Char}

/-- A run without a block is not marked. -/
theorem not_begin_infix (hlead : Plain a) (hsound : ∀ x ∈ sections, x.Sound)
    (hrun : run ∉ sections.map Section.run) :
    ¬ beginMarker run <:+: a ++ sections.flatMap Section.text := by
  induction sections generalizing a with
  | nil =>
    rw [List.flatMap_nil, List.append_nil]
    exact hlead.unmarked run
  | cons x sections ih =>
    rw [List.map_cons, List.mem_cons, not_or] at hrun
    have hx := hsound x List.mem_cons_self
    have hrest := ih hx.after (fun y hy => hsound y (List.mem_cons_of_mem x hy)) hrun.2
    have hsplit : a ++ (x :: sections).flatMap Section.text = a ++ beginMarker x.run ++
        (x.body ++ endMarker x.run ++ (x.after ++ sections.flatMap Section.text)) := by
      simp [Section.text]
    rw [hsplit]
    intro h
    rcases begin_infix_append h with h | h | h
    · exact hlead.unmarked run h
    · exact hrun.1 h
    · exact (begin_infix_append_end h).elim (hx.body.unmarked run) hrest

/-- Whether a text holds one block of a run, with some content. -/
def HoldsOnce (text : List Char) (run : Identifier) (body : List Char) : Prop :=
  ∃ a c, text = a ++ beginMarker run ++ (body ++ endMarker run ++ c) ∧
    ¬ beginMarker run <:+: a ∧ ¬ beginMarker run <:+: body ++ endMarker run ++ c ∧
    ¬ endMarker run <:+: body

/-- A run's block stands once in a document. -/
theorem holdsOnce_append (h : d.sections = before ++ x :: after) :
    (d.lead ++ before.flatMap Section.text) ++ beginMarker x.run ++
        (x.body ++ endMarker x.run ++ (x.after ++ after.flatMap Section.text)) = d.text ∧
      ¬ beginMarker x.run <:+: d.lead ++ before.flatMap Section.text ∧
      ¬ beginMarker x.run <:+:
        x.body ++ endMarker x.run ++ (x.after ++ after.flatMap Section.text) := by
  have hsound := d.sound
  have hdistinct := d.distinct
  rw [h] at hsound hdistinct
  rw [List.map_append, List.map_cons, List.nodup_append] at hdistinct
  obtain ⟨-, hafter, hdisjoint⟩ := hdistinct
  have hx := hsound x (by simp)
  refine ⟨?_, ?_, fun hmark => ?_⟩
  · unfold Document.text
    rw [h]
    simp [Section.text]
  · refine not_begin_infix d.plain (fun y hy => hsound y (by simp [hy])) fun hmem => ?_
    exact hdisjoint _ hmem _ List.mem_cons_self rfl
  · rcases begin_infix_append_end hmark with hmark | hmark
    · exact hx.body.unmarked _ hmark
    · exact not_begin_infix hx.after (fun y hy => hsound y (by simp [hy]))
        (List.nodup_cons.mp hafter).1 hmark

theorem Document.exists_section (h : d.body? run = some body) :
    ∃ before x after, d.sections = before ++ x :: after ∧ x.run = run ∧ x.body = body := by
  obtain ⟨x, hx, rfl⟩ := Option.map_eq_some_iff.mp h
  obtain ⟨before, after, hsplit⟩ := List.append_of_mem (List.mem_of_find?_eq_some hx)
  exact ⟨before, x, after, hsplit, by simpa using List.find?_some hx, rfl⟩

theorem Document.holdsOnce (h : d.body? run = some body) : HoldsOnce d.text run body := by
  obtain ⟨before, x, after, hsplit, rfl, rfl⟩ := Document.exists_section h
  obtain ⟨htext, hbefore, hafter⟩ := holdsOnce_append hsplit
  have hx := d.sound x (hsplit ▸ by simp)
  exact ⟨_, _, htext.symm, hbefore, hafter, hx.closed⟩

/-- Where a run has its block, the block is replaced and the rest stays. -/
theorem update_holdsOnce (ha : ¬ beginMarker run <:+: a) (hbody : ¬ endMarker run <:+: body)
    (content : List Char) :
    update (a ++ beginMarker run ++ (body ++ endMarker run ++ c)) run content =
      .ok (a ++ block run content ++ c) := by
  unfold update
  rw [splitOnce_begin ha]
  simp only [splitOnce_end hbody]

/-- Writing a block that stands there changes nothing. -/
theorem HoldsOnce.update_eq {text : List Char} (h : HoldsOnce text run ('\n' :: content)) :
    update text run content = .ok text := by
  obtain ⟨a, c, rfl, ha, -, hbody⟩ := h
  rw [update_holdsOnce ha hbody]
  simp [block]

/-! ## Writing -/

/-- Whether what is written of a run holds no carriage return, no first marker of any run, and not
the run's own last marker. -/
structure Neat (run : Identifier) (content : List Char) : Prop where
  plain : Plain content
  closed : ¬ endMarker run <:+: content

theorem not_infix_newline {s : List Char} (h : ¬ ('<' :: s) <:+: a) :
    ¬ ('<' :: s) <:+: '\n' :: a := by
  intro hmark
  have hnewline : '<' ∉ ['\n'] := by decide
  have hmark : ('<' :: s) <:+: ['\n'] ++ a := hmark
  exact h (infix_of_notMem hnewline hmark)

theorem Neat.sound (h : Neat run content) (ha : Plain a) :
    Section.Sound ⟨run, '\n' :: content, a⟩ where
  body := ⟨by simpa using h.plain.line, fun r => not_infix_newline (h.plain.unmarked r)⟩
  closed := not_infix_newline h.closed
  after := ha

theorem Document.body?_eq_some :
    d.body? run = some body ↔ ∃ x ∈ d.sections, x.run = run ∧ x.body = body := by
  constructor
  · intro h
    obtain ⟨before, x, after, hsplit, hrun, hbody⟩ := Document.exists_section h
    exact ⟨x, hsplit ▸ by simp, hrun, hbody⟩
  · rintro ⟨x, hx, rfl, rfl⟩
    unfold Document.body?
    cases hfind : d.sections.find? fun y => y.run = x.run with
    | none =>
      have := List.find?_eq_none.mp hfind x hx
      simp at this
    | some y =>
      have hy : y.run = x.run := by simpa using List.find?_some hfind
      rw [List.inj_on_of_nodup_map d.distinct (List.mem_of_find?_eq_some hfind) hx hy,
        Option.map_some]

/-- Replacing one block leaves the others. -/
theorem Document.exists_replaced (hneat : Neat run content) (h : d.body? run = some body) :
    ∃ d' : Document, update d.text run content = .ok d'.text ∧
      d'.body? run = some ('\n' :: content) ∧ ∀ r, r ≠ run → d'.body? r = d.body? r := by
  obtain ⟨before, x, after, hsplit, rfl, rfl⟩ := Document.exists_section h
  obtain ⟨htext, hbefore, -⟩ := holdsOnce_append hsplit
  have hsound := d.sound
  have hdistinct := d.distinct
  rw [hsplit] at hsound hdistinct
  have hx := hsound x (by simp)
  let d' : Document :=
    { lead := d.lead
      sections := before ++ ⟨x.run, '\n' :: content, x.after⟩ :: after
      distinct := by simpa using hdistinct
      plain := d.plain
      sound := by
        intro y hy
        rcases List.mem_append.mp hy with hy | hy
        · exact hsound y (by simp [hy])
        · rcases List.mem_cons.mp hy with rfl | hy
          · exact hneat.sound hx.after
          · exact hsound y (by simp [hy]) }
  refine ⟨d', ?_, ?_, fun r hr => ?_⟩
  · rw [← htext, update_holdsOnce hbefore hx.closed]
    simp [d', Document.text, Section.text, block]
  · exact Document.body?_eq_some.mpr ⟨⟨x.run, '\n' :: content, x.after⟩, by simp [d'], rfl, rfl⟩
  · ext b
    rw [Document.body?_eq_some, Document.body?_eq_some, hsplit]
    simp only [d', List.mem_append, List.mem_cons]
    constructor
    · rintro ⟨y, hy | rfl | hy, rfl, rfl⟩
      · exact ⟨y, .inl hy, rfl, rfl⟩
      · exact absurd rfl hr
      · exact ⟨y, .inr (.inr hy), rfl, rfl⟩
    · rintro ⟨y, hy | rfl | hy, rfl, rfl⟩
      · exact ⟨y, .inl hy, rfl, rfl⟩
      · exact absurd rfl hr
      · exact ⟨y, .inr (.inr hy), rfl, rfl⟩

theorem newline_notMem_begin (run : Identifier) : '\n' ∉ beginMarker run := by
  have hname : '\n' ∉ run.text := by
    intro hmem
    exact absurd (List.all_eq_true.mp run.spelled '\n' hmem) (by decide)
  have hstart : '\n' ∉ "!-- orqalis:".toList := by decide
  have hkind : '\n' ∉ ":begin -->".toList := by decide
  have hopen : '\n' ≠ '<' := by decide
  simp only [beginMarker, List.mem_cons, List.mem_append, not_or]
  exact ⟨hopen, ⟨hstart, hname⟩, hkind⟩

/-- A text without the white space at its end, and a blank line. -/
theorem Plain.opened (h : Plain a) : Plain (rstrip a ++ ['\n', '\n']) := by
  have hstart := rstrip_initial a
  constructor
  · rw [List.mem_append, not_or]
    exact ⟨fun hmem => h.line (hstart.subset hmem), by decide⟩
  · intro run hmark
    have hblank : ∀ c ∈ ['\n', '\n'], c ∉ beginMarker run := by
      intro c hc
      have hc : c = '\n' := by simpa using hc
      exact hc ▸ newline_notMem_begin run
    have hmark := infix_append_blank (List.cons_ne_nil _ _) hblank hmark
    exact h.unmarked run (hmark.trans hstart.isInfix)

theorem rstrip_end (run : Identifier) (a b : List Char) :
    rstrip (a ++ endMarker run ++ b) = a ++ endMarker run ++ rstrip b := by
  by_cases hb : blank b
  · have hlast : endMarker run = ('<' :: ("!-- orqalis:".toList ++ run.text ++ ":end --".toList)) ++
        ['>'] := by
      simp [endMarker]
    rw [rstrip_append_blank _ hb, rstrip_eq_nil.mpr hb, List.append_nil, hlast,
      ← List.append_assoc, rstrip_append _ (by decide)]
    rfl
  · rw [rstrip_append _ (by simpa using hb)]

/-- A document without the white space at its end, and a blank line. -/
theorem Document.exists_opened (d : Document) :
    ∃ d' : Document, d'.text = rstrip d.text ++ ['\n', '\n'] ∧
      d'.sections.map Section.run = d.sections.map Section.run ∧ ∀ r, d'.body? r = d.body? r := by
  have hsound := d.sound
  have hdistinct := d.distinct
  rcases List.eq_nil_or_concat d.sections with hnil | ⟨front, x, hsplit⟩
  on_goal 2 => rw [List.concat_eq_append] at hsplit
  · let d' : Document :=
      { lead := rstrip d.lead ++ ['\n', '\n']
        sections := []
        distinct := List.nodup_nil
        plain := d.plain.opened
        sound := by simp }
    refine ⟨d', ?_, by simp [d', hnil], fun r => by simp [d', Document.body?, hnil]⟩
    simp [d', Document.text, hnil]
  · rw [hsplit] at hsound hdistinct
    have hx := hsound x (by simp)
    let d' : Document :=
      { lead := d.lead
        sections := front ++ [⟨x.run, x.body, rstrip x.after ++ ['\n', '\n']⟩]
        distinct := by simpa using hdistinct
        plain := d.plain
        sound := by
          intro y hy
          rcases List.mem_append.mp hy with hy | hy
          · exact hsound y (by simp [hy])
          · rw [List.mem_singleton.mp hy]
            exact ⟨hx.body, hx.closed, hx.after.opened⟩ }
    refine ⟨d', ?_, by simp [d', hsplit], fun r => ?_⟩
    · have htext : d.text = d.lead ++ front.flatMap Section.text ++ beginMarker x.run ++ x.body ++
          endMarker x.run ++ x.after := by
        simp [Document.text, Section.text, hsplit]
      rw [htext, rstrip_end]
      simp [d', Document.text, Section.text]
    · simp only [d', Document.body?, hsplit, List.find?_append]
      cases front.find? fun y => decide (y.run = r) with
      | some y => rfl
      | none => by_cases hr : x.run = r <;> simp [hr]

theorem Document.body?_eq_none : d.body? run = none ↔ run ∉ d.sections.map Section.run := by
  unfold Document.body?
  rw [Option.map_eq_none_iff, List.find?_eq_none, List.mem_map]
  constructor
  · rintro h ⟨x, hx, rfl⟩
    simpa using h x hx
  · intro h x hx
    simp only [decide_eq_true_eq]
    exact fun hrun => h ⟨x, hx, hrun⟩

/-- Appending a block leaves the others. -/
theorem Document.exists_appended (hneat : Neat run content) (h : d.body? run = none) :
    ∃ d' : Document, d'.text = rstrip d.text ++ ['\n', '\n'] ++ block run content ++ ['\n'] ∧
      d'.body? run = some ('\n' :: content) ∧ ∀ r, r ≠ run → d'.body? r = d.body? r := by
  obtain ⟨d₁, htext, hruns, hbody⟩ := d.exists_opened
  have hnew : Section.Sound ⟨run, '\n' :: content, ['\n']⟩ := by
    refine hneat.sound ⟨by decide, fun r hmark => ?_⟩
    have hmem := hmark.subset (List.mem_cons_self (a := '<'))
    simp at hmem
  let d' : Document :=
    { lead := d₁.lead
      sections := d₁.sections ++ [⟨run, '\n' :: content, ['\n']⟩]
      distinct := by
        rw [List.map_append, List.nodup_append]
        refine ⟨d₁.distinct, by simp, ?_⟩
        rintro r hr r' hr' rfl
        have hr' : r = run := by simpa using hr'
        rw [hr', hruns] at hr
        exact Document.body?_eq_none.mp h hr
      plain := d₁.plain
      sound := by
        intro y hy
        rcases List.mem_append.mp hy with hy | hy
        · exact d₁.sound y hy
        · exact List.mem_singleton.mp hy ▸ hnew }
  refine ⟨d', ?_, ?_, fun r hr => ?_⟩
  · rw [← htext]
    simp [d', Document.text, Section.text, block]
  · exact Document.body?_eq_some.mpr ⟨⟨run, '\n' :: content, ['\n']⟩, by simp [d'], rfl, rfl⟩
  · rw [← hbody r]
    ext b
    rw [Document.body?_eq_some, Document.body?_eq_some]
    simp only [d', List.mem_append, List.mem_singleton]
    constructor
    · rintro ⟨y, hy | rfl, rfl, rfl⟩
      · exact ⟨y, hy, rfl, rfl⟩
      · exact absurd rfl hr
    · rintro ⟨y, hy, rfl, rfl⟩
      exact ⟨y, .inl hy, rfl, rfl⟩

/-- What a write does to a text: it replaces what stands between the markers of the run, or it
appends a block after the text, the white space at its end aside. -/
def Framed (text : List Char) (run : Identifier) (content text' : List Char) : Prop :=
  (∃ a old c, text = a ++ beginMarker run ++ (old ++ endMarker run ++ c) ∧
      ¬ beginMarker run <:+: a ∧ ¬ endMarker run <:+: old ∧
      text' = a ++ block run content ++ c) ∨
    (¬ beginMarker run <:+: text ∧
      text' = rstrip text ++ ['\n', '\n'] ++ block run content ++ ['\n'])

/-- A neat write to a document gives a document, of which only the run's block is another. -/
theorem Document.exists_update (d : Document) (hneat : Neat run content) :
    ∃ d' : Document, update d.text run content = .ok d'.text ∧
      Framed d.text run content d'.text ∧ d'.body? run = some ('\n' :: content) ∧
      ∀ r, r ≠ run → d'.body? r = d.body? r := by
  cases hbody : d.body? run with
  | some old =>
    obtain ⟨d', hupdate, hrun, hothers⟩ := Document.exists_replaced hneat hbody
    obtain ⟨a, c, htext, ha, -, hold⟩ := Document.holdsOnce hbody
    refine ⟨d', hupdate, .inl ⟨a, old, c, htext, ha, hold, ?_⟩, hrun, hothers⟩
    rw [htext, update_holdsOnce ha hold] at hupdate
    exact (Except.ok.inj hupdate).symm
  | none =>
    obtain ⟨d', htext, hrun, hothers⟩ := Document.exists_appended hneat hbody
    have hunmarked : ¬ beginMarker run <:+: d.text :=
      not_begin_infix d.plain d.sound (Document.body?_eq_none.mp hbody)
    refine ⟨d', ?_, .inr ⟨hunmarked, htext⟩, hrun, hothers⟩
    have hnone : splitOnce (beginMarker run) d.text = none :=
      splitOnce_eq_none (List.cons_ne_nil _ _) hunmarked
    unfold update
    rw [hnone, htext]

/-! ## Sequences of writes -/

theorem Document.line (d : Document) : '\r' ∉ d.text := by
  have hname (run : Identifier) : '\r' ∉ run.text := by
    intro hmem
    exact absurd (List.all_eq_true.mp run.spelled '\r' hmem) (by decide)
  have hmark (run : Identifier) : '\r' ∉ beginMarker run ∧ '\r' ∉ endMarker run := by
    simp [beginMarker, endMarker, hname]
  unfold Document.text
  rw [List.mem_append, not_or]
  refine ⟨d.plain.line, fun hmem => ?_⟩
  obtain ⟨x, hx, hmem⟩ := List.mem_flatMap.mp hmem
  have hsound := d.sound x hx
  simp only [Section.text, List.mem_append] at hmem
  rcases hmem with hmem | (hmem | hmem) | hmem
  · exact (hmark x.run).1 hmem
  · exact hsound.body.line hmem
  · exact (hmark x.run).2 hmem
  · exact hsound.after.line hmem

/-- The text of the document, empty where there is none. -/
def DocumentState.text (s : DocumentState H) : List Char := s.document.getD []

variable {host} {s s' start : DocumentState H} {log : List Contribution} {w : Contribution}

/-- A write that was documented before leaves everything as it is. -/
theorem write_existing {e : Artifact H} (he : existing s w = some e) (h : write host w s = .ok s') :
    s' = s := by
  unfold write at h
  rw [he] at h
  dsimp only at h
  split_ifs at h
  cases h
  rfl

/-- Any other write updates the text as it was read. -/
theorem write_new (he : existing s w = none) (h : write host w s = .ok s') :
    update (newlines s.text) w.run w.content = .ok s'.text := by
  unfold write at h
  rw [he] at h
  dsimp only at h
  split_ifs at h
  obtain ⟨text, hupdate, h⟩ := bind_eq_ok.mp h
  obtain ⟨digest, -, h⟩ := bind_eq_ok.mp h
  cases h
  exact hupdate

/-- What some writes led to, in the order they were made. A write that is refused, or that was
documented before, is none of them. -/
inductive Writes (host : Host H) (start : DocumentState H) :
    DocumentState H → List Contribution → Prop
  | start : Writes host start start []
  | write {s s' : DocumentState H} {log : List Contribution} {w : Contribution} :
    Writes host start s log → existing s w = none → DocumentationService.write host w s = .ok s' →
      Writes host start s' (log ++ [w])

/-- What was written last for a run. -/
def lastContent (log : List Contribution) (run : Identifier) : Option (List Char) :=
  (log.reverse.find? fun w => w.run = run).map Contribution.content

theorem lastContent_append (log : List Contribution) (w : Contribution) (run : Identifier) :
    lastContent (log ++ [w]) run = if w.run = run then some w.content else lastContent log run := by
  unfold lastContent
  rw [List.reverse_append, List.reverse_singleton, List.singleton_append, List.find?_cons]
  split_ifs with h <;> simp [h]

/-- A document that holds what was written last for each run. -/
structure Holds (s : DocumentState H) (log : List Contribution) (d : Document) : Prop where
  text : s.text = d.text
  body : ∀ run content, lastContent log run = some content → d.body? run = some ('\n' :: content)

/-- One more write. -/
theorem Holds.write (h : Holds s log d) (hneat : Neat w.run w.content) (he : existing s w = none)
    (hw : write host w s = .ok s') :
    ∃ d', Holds s' (log ++ [w]) d' ∧ Framed s.text w.run w.content s'.text := by
  have hupdate := write_new he hw
  rw [h.text, newlines_eq_self d.line] at hupdate
  obtain ⟨d', hupdate', hframed, hrun, hothers⟩ := d.exists_update hneat
  have htext : s'.text = d'.text := Except.ok.inj (hupdate.symm.trans hupdate')
  refine ⟨d', ⟨htext, fun run content hlast => ?_⟩, by rw [h.text, htext]; exact hframed⟩
  rw [lastContent_append] at hlast
  split_ifs at hlast with hw
  · cases hlast
    exact hw ▸ hrun
  · rw [hothers run (Ne.symm hw)]
    exact h.body run content hlast

/-- Every sequence of writes. -/
theorem Writes.holds (h : Writes host start s log) (hstart : ∃ d : Document, start.text = d.text)
    (hneat : ∀ w ∈ log, Neat w.run w.content) : ∃ d, Holds s log d := by
  induction h with
  | start =>
    obtain ⟨d, hd⟩ := hstart
    exact ⟨d, hd, by simp [lastContent]⟩
  | write hwrites he hw ih =>
    obtain ⟨d, hd⟩ := ih fun w hmem => hneat w (List.mem_append_left _ hmem)
    obtain ⟨d', hd', -⟩ := hd.write (hneat _ (by simp)) he hw
    exact ⟨d', hd'⟩

/-- Of a document of whole blocks, neat writes make one that holds one block for each run, with
what was written last for it; to write that again changes nothing; and the next write changes the
block of its run and nothing else, or nothing at all where its review was documented before. -/
theorem documentation_framed (hstart : ∃ d : Document, start.text = d.text)
    (hwrites : Writes host start s log) (hneat : ∀ w ∈ log, Neat w.run w.content) :
    (∀ run content, lastContent log run = some content →
      HoldsOnce s.text run ('\n' :: content) ∧
        update (newlines s.text) run content = .ok s.text) ∧
    ∀ w s', write host w s = .ok s' →
      (∀ e, existing s w = some e → s' = s) ∧
      (existing s w = none → Neat w.run w.content →
        Framed s.text w.run w.content s'.text) := by
  obtain ⟨d, hd⟩ := hwrites.holds hstart hneat
  refine ⟨fun run content hlast => ?_, fun w s' hw => ⟨fun e he => write_existing he hw, ?_⟩⟩
  · have honce := Document.holdsOnce (hd.body run content hlast)
    rw [hd.text, newlines_eq_self d.line]
    exact ⟨honce, honce.update_eq⟩
  · intro he hneat
    obtain ⟨-, -, hframed⟩ := hd.write hneat he hw
    exact hframed

/-- The text of an identifier of zeros. -/
def zeros : Identifier := ⟨"00000000-0000-0000-0000-000000000000".toList, by decide, by decide⟩

/-- A contribution without changes and criteria. -/
def plainContribution : Contribution :=
  ⟨zeros, "Goal".toList, "main".toList, 1, zeros, [], []⟩

theorem plainContribution_neat : Neat plainContribution.run plainContribution.content := by
  have hopen : '<' ∉ plainContribution.content := by decide
  have hmark {s : List Char} : ¬ ('<' :: s) <:+: plainContribution.content := fun h =>
    hopen (h.subset List.mem_cons_self)
  exact ⟨⟨by decide, fun run => hmark⟩, hmark⟩

/-- The first block of a document. -/
def firstBlock : List Char :=
  ['\n', '\n'] ++ block plainContribution.run plainContribution.content ++ ['\n']

/-- A host that takes files up to that one. -/
def openHost : Host (List Char) :=
  ⟨id, fun _ => true, (Utf8.encodeText firstBlock).length⟩

theorem plainContribution_written :
    write openHost plainContribution {} =
      .ok { document := some firstBlock, artifacts := [⟨zeros, zeros, firstBlock⟩] } := by
  have hfile : writeFile openHost firstBlock = .ok firstBlock := by
    simp [writeFile, openHost]
  have hupdate : update [] plainContribution.run plainContribution.content = .ok firstBlock := rfl
  have hnewlines : newlines (({} : DocumentState (List Char)).document.getD []) = [] := rfl
  have hexisting : existing ({} : DocumentState (List Char)) plainContribution = none := rfl
  unfold write
  simp only [hexisting, hnewlines, hupdate, ok_bind, hfile]
  rfl

/-- A document without text. -/
def emptyDocument : Document where
  lead := []
  sections := []
  distinct := List.nodup_nil
  plain := ⟨by decide, fun run h => by simp [beginMarker] at h⟩
  sound := by simp

/-- A first block in an empty document, and once more. -/
theorem firstBlock_framed :
    HoldsOnce firstBlock zeros ('\n' :: plainContribution.content) ∧
      update (newlines firstBlock) zeros plainContribution.content = .ok firstBlock := by
  have hwrites : Writes openHost {} { document := some firstBlock, artifacts := _ }
      [plainContribution] :=
    .write .start rfl plainContribution_written
  exact (documentation_framed ⟨emptyDocument, rfl⟩ hwrites
    (by simpa using plainContribution_neat)).1 zeros plainContribution.content rfl

/-- A document with a carriage return. -/
def returned : DocumentState (List Char) := { document := some ['a', '\r', '\n', 'b'] }

/-- The same with a block: the carriage return is gone. -/
def returnedText : List Char := ['a', '\n', 'b'] ++ firstBlock

theorem returned_not_framed :
    ∃ s', write { openHost with maxFileBytes := (Utf8.encodeText returnedText).length }
        plainContribution returned = .ok s' ∧
      ¬ Framed returned.text plainContribution.run plainContribution.content s'.text := by
  have hfile : writeFile { openHost with maxFileBytes := (Utf8.encodeText returnedText).length }
      returnedText = .ok returnedText := by
    simp [writeFile, openHost]
  have hupdate : update ['a', '\n', 'b'] plainContribution.run plainContribution.content =
      .ok returnedText := rfl
  have hnewlines : newlines (returned.document.getD []) = ['a', '\n', 'b'] := rfl
  have hexisting : existing returned plainContribution = none := rfl
  refine ⟨{ document := some returnedText, artifacts := [⟨zeros, zeros, returnedText⟩] }, ?_, ?_⟩
  · unfold write
    simp only [hexisting, hnewlines, hupdate, ok_bind, hfile]
    rfl
  · rintro (⟨a, old, c, htext, -⟩ | ⟨-, htext⟩)
    · have hopen : '<' ∈ returned.text := by
        rw [htext]
        simp [beginMarker]
      exact absurd hopen (by decide)
    · have hsecond := congrArg (fun t => t[1]?) htext
      exact absurd hsecond (by decide)

end DocumentationService

end Orqalis
