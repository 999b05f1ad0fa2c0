import Orqalis.Lib.Nesting
import Orqalis.Persistence.Encoding

/-!
# A log of JSON lines

One object a line, appended with its line break. An append that is cut leaves the beginning of a
line, and what is appended after it stands on the same line. Such a line is not read
(`readLine_torn`), so a log is read as exactly the objects appended to it or refused; and its first
objects can be restored (`log_cut`).
-/

namespace Orqalis

open Lib Lib.Json Lib.Utf8

namespace Filesystem

variable {F : Type} (floats : Floats F)

/-- A file, if there is one. -/
abbrev File := Option (List UInt8)

/-- An object. -/
abbrev LogRecord (F : Type) := List (List Nat × Value F)

/-- `splitlines`, with the line breaks. -/
def splitLines : List UInt8 → List (List UInt8)
  | [] => []
  | 0x0A :: rest => [0x0A] :: splitLines rest
  | 0x0D :: 0x0A :: rest => [0x0D, 0x0A] :: splitLines rest
  | 0x0D :: rest => [0x0D] :: splitLines rest
  | b :: rest =>
    match splitLines rest with
    | [] => [[b]]
    | line :: lines => (b :: line) :: lines

/-- A line without its break. -/
def withoutBreak (line : List UInt8) : List UInt8 :=
  line.takeWhile fun b => b ≠ 0x0A && b ≠ 0x0D

/-- A line as an object. -/
def readLine (line : List UInt8) : Except Error (Value F) :=
  match decodeJson floats line with
  | .error e => .error e
  | .ok (.obj members) => .ok (.obj members)
  | .ok _ => .error (.format "Expected a JSON object")

/-- A line of a log as an object. -/
def readRecord (line : List UInt8) : Except Error (Value F) :=
  if line = [] then .error (.format "Blank JSONL record") else readLine floats line

/-- `read_jsonl` -/
def readJsonl : File → Except Error (List (Value F))
  | none => .ok []
  | some content =>
    if content = [] then .ok []
    else if content.getLast? ≠ some 0x0A then
      .error (.format "JSONL file ends with an incomplete record")
    else ((splitLines content).map withoutBreak).mapM (readRecord floats)

/-- `repair_jsonl_prefix` -/
def repairJsonlPrefix (file : File) (recordCount : Nat) : Except Error (File × List (Value F)) :=
  match file with
  | none =>
    if recordCount ≠ 0 then .error (.format "JSONL file has fewer committed records")
    else .ok (none, [])
  | some content =>
    let kept := (splitLines content).take recordCount
    if kept.length ≠ recordCount ∨ kept.any fun line => line.getLast? ≠ some 0x0A then
      .error (.format "JSONL file has an incomplete committed prefix")
    else (kept.mapM (readLine floats)).map fun records => (some kept.flatten, records)

/-- `append_jsonl_atomic` -/
def appendJsonl (file : File) (record : LogRecord F) : Except Error File :=
  (encodedJsonLine floats (.obj record)).map fun encoded => some (file.getD [] ++ encoded)

/-- Append records. -/
def appendAll (file : File) (records : List (LogRecord F)) : Except Error File :=
  records.foldlM (appendJsonl floats) file

variable {floats} {file file' : File} {record : LogRecord F} {records : List (LogRecord F)}
  {line rest : List UInt8} {lines : List (List UInt8)}

/-! ## Lines -/

/-- Whether bytes have no line break. -/
def Unbroken (line : List UInt8) : Prop := ∀ b ∈ line, b ≠ 0x0A ∧ b ≠ 0x0D

/-- Lines, each with its break. -/
def joined (lines : List (List UInt8)) : List UInt8 := lines.flatMap fun line => line ++ [0x0A]

theorem splitLines_cons {b : UInt8} (hb : b ≠ 0x0A ∧ b ≠ 0x0D) {more : List (List UInt8)}
    (h : splitLines rest = line :: more) : splitLines (b :: rest) = (b :: line) :: more := by
  rw [splitLines]
  · rw [h]
  · exact hb.1
  · intro rest' hcons
    exact absurd hcons hb.2
  · exact hb.2

/-- A line is the first one up to its break. -/
theorem splitLines_append (h : Unbroken line) (rest : List UInt8) :
    splitLines (line ++ 0x0A :: rest) = (line ++ [0x0A]) :: splitLines rest := by
  induction line with
  | nil => rfl
  | cons b line ih =>
    exact splitLines_cons (h b List.mem_cons_self) (ih fun c hc => h c (List.mem_cons_of_mem b hc))

theorem splitLines_joined (h : ∀ line ∈ lines, Unbroken line) (rest : List UInt8) :
    splitLines (joined lines ++ rest) = lines.map (· ++ [0x0A]) ++ splitLines rest := by
  induction lines with
  | nil => rfl
  | cons line lines ih =>
    have hcons : joined (line :: lines) ++ rest = line ++ 0x0A :: (joined lines ++ rest) := by
      simp [joined]
    rw [hcons, splitLines_append (h line List.mem_cons_self),
      ih fun l hl => h l (List.mem_cons_of_mem line hl)]
    rfl

theorem withoutBreak_append (h : Unbroken line) : withoutBreak (line ++ [0x0A]) = line := by
  have hline : ∀ b ∈ line, (b ≠ 0x0A && b ≠ 0x0D) = true := by
    intro b hb
    simpa using h b hb
  rw [withoutBreak, List.takeWhile_append_of_pos hline]
  simp

theorem getLast?_joined {content : List UInt8} (hne : lines ≠ []) :
    (content ++ joined lines).getLast? = some 0x0A := by
  obtain ⟨front, line, rfl⟩ := List.eq_nil_or_concat lines |>.resolve_left hne
  simp [joined]

/-- A log of lines is read line by line. -/
theorem readJsonl_joined (h : ∀ line ∈ lines, Unbroken line) :
    readJsonl floats (some (joined lines)) = lines.mapM (readRecord floats) := by
  cases hlines : lines with
  | nil => rfl
  | cons line more =>
    rw [← hlines]
    have hne : lines ≠ [] := by simp [hlines]
    have hlast : (joined lines).getLast? = some 0x0A := @getLast?_joined lines [] hne
    have hcontent : joined lines ≠ [] := by
      intro hnil
      rw [hnil] at hlast
      cases hlast
    have hsplit := splitLines_joined h []
    rw [List.append_nil] at hsplit
    have hwithout : (lines.map (· ++ [0x0A])).map withoutBreak = lines := by
      rw [List.map_map]
      exact (List.map_congr_left fun l hl => withoutBreak_append (h l hl)).trans (List.map_id lines)
    simp only [readJsonl, if_neg hcontent, hlast, ne_eq, not_true_eq_false, if_false, hsplit,
      splitLines, List.append_nil, hwithout]

/-! ## Records -/

/-- The line of a record. -/
def IsLine (floats : Floats F) (record : LogRecord F) (line : List UInt8) : Prop :=
  ∃ members, (Value.obj record).sorted.spell floats = some (.obj members) ∧
    (Value.obj record).unique ∧ line = encodeText (compact escape (.obj members))

theorem encodedJsonLine_eq_ok {encoded : List UInt8} :
    encodedJsonLine floats (.obj record) = .ok encoded ↔
      ∃ line, IsLine floats record line ∧ encoded = line ++ [0x0A] := by
  have hbreak : encodeText ['\n'] = [0x0A] := by decide
  rw [encodedJsonLine, encodedBy_eq_ok Value.readBack_compact]
  constructor
  · rintro ⟨j, hj, hunique, rfl⟩
    have hspell := hj
    rw [Value.sorted, Value.spell] at hj
    obtain ⟨members, -, rfl⟩ := Option.map_eq_some_iff.mp hj
    exact ⟨_, ⟨members, hspell, hunique, rfl⟩, by rw [encodeText_append, hbreak]⟩
  · rintro ⟨line, ⟨members, hspell, hunique, rfl⟩, rfl⟩
    exact ⟨_, hspell, hunique, by rw [encodeText_append, hbreak]⟩

theorem IsLine.unbroken (h : IsLine floats record line) : Unbroken line := by
  obtain ⟨members, -, -, rfl⟩ := h
  intro b hb
  constructor
  · rintro rfl
    obtain ⟨c, hc, hbreak⟩ := mem_of_mem_encodeText (by decide) hb
    exact (line_compact _ c hc).1 (Char.toNat_inj.mp hbreak)
  · rintro rfl
    obtain ⟨c, hc, hbreak⟩ := mem_of_mem_encodeText (by decide) hb
    exact (line_compact _ c hc).2 (Char.toNat_inj.mp hbreak)

theorem IsLine.objectText (h : IsLine floats record line) :
    ∃ t, line = encodeText t ∧ ObjectText t := by
  obtain ⟨members, hspell, -, rfl⟩ := h
  exact ⟨_, rfl, Value.objectText hspell⟩

theorem IsLine.ne_nil (h : IsLine floats record line) : line ≠ [] := by
  obtain ⟨t, rfl, u, rfl, -⟩ := h.objectText
  rw [ne_eq, encodeText_eq_nil]
  exact List.cons_ne_nil _ _

/-- The line of a record is read as the record, with its break or without. -/
theorem IsLine.readLine (h : IsLine floats record line) {tail : List Char}
    (htail : tail = [] ∨ tail = ['\n']) :
    readLine floats (line ++ encodeText tail) = .ok (Value.obj record).sorted := by
  obtain ⟨members, hspell, hunique, rfl⟩ := h
  have hblank : Ends tail ∧ skip tail = [] := by
    rcases htail with rfl | rfl
    · exact ⟨ends_nil, rfl⟩
    · exact ⟨ends_newline_nil, rfl⟩
  have hread : decodeJson floats (encodeText (compact escape (.obj members)) ++ encodeText tail) =
      .ok (Value.obj record).sorted := by
    rw [← encodeText_append]
    exact decodeJson_eq_ok.mpr
      ⟨_, rfl, Value.parseText_spell Value.readBack_compact hspell hblank.1 hblank.2,
        (Value.unique_sorted _).trans hunique⟩
  unfold Filesystem.readLine
  rw [hread]
  rw [Value.sorted]

theorem IsLine.readRecord (h : IsLine floats record line) :
    readRecord floats line = .ok (Value.obj record).sorted := by
  have hline := h.readLine (.inl rfl)
  have hnil : encodeText [] = [] := rfl
  rw [hnil, List.append_nil] at hline
  rw [Filesystem.readRecord, if_neg h.ne_nil, hline]

/-- Bytes that are no document are refused as such. -/
theorem decodeJson_refused {content : List UInt8} (h : ∀ v, decodeJson floats content ≠ .ok v) :
    ∃ message, decodeJson floats content = .error (.format message) := by
  unfold decodeJson at h ⊢
  cases htext : decode content with
  | none => exact ⟨_, rfl⟩
  | some text =>
    cases hv : Value.parseText floats text with
    | none => exact ⟨"Invalid JSON document", by simp only [hv]⟩
    | some v =>
      simp only [htext, hv] at h ⊢
      by_cases hunique : v.unique
      · exact absurd (if_pos hunique) (h v)
      · exact ⟨_, if_neg hunique⟩

/-- What an append that was cut left of a record's line, with another record's line after it, is
refused. -/
theorem readRecord_torn {record' : LogRecord F} {line' left : List UInt8}
    (h : IsLine floats record line) (h' : IsLine floats record' line') (hleft : left <+: line)
    (hne : left ≠ []) :
    ∃ message, readRecord floats (left ++ line') = .error (.format message) := by
  obtain ⟨right, hright⟩ := hleft
  have hnone : ∀ v, decodeJson floats (left ++ line') ≠ .ok v := by
    intro v hv
    obtain ⟨t', ht', u', hu', hpass'⟩ := h'.objectText
    have hobject' : ObjectText t' := ⟨u', hu', hpass'⟩
    obtain ⟨members, hspell, -, hline⟩ := h
    obtain ⟨text, htext, hparse, -⟩ := decodeJson_eq_ok.mp hv
    -- the brace of the second line shows where the characters of the first one end
    have hbrace : encodeText t' = 0x7B :: encodeText u' := by
      rw [hu', encodeText_cons]
      rfl
    rw [ht', hbrace] at htext
    obtain ⟨p, c, q, rfl, hc, hp, hq⟩ := text_of_mem_encodeText (by decide) htext.symm
    have hc : c = '{' := Char.toNat_inj.mp hc
    have hjoined : p ++ c :: q = p ++ t' := by rw [hc, ← encodeText_injective hq, hu']
    rw [hjoined] at hparse
    rw [hline, hp] at hright
    obtain ⟨r, hr, -⟩ := text_of_encodeText_append hright
    have hp0 : p ≠ [] := by
      rintro rfl
      exact hne hp
    cases r with
    | nil =>
      rw [List.append_nil] at hr
      rw [← hr, Value.parseText_joined hspell hobject'] at hparse
      cases hparse
    | cons x r =>
      rw [Value.parseText_torn (Value.objectText hspell) hp0 hr hobject'] at hparse
      cases hparse
  obtain ⟨message, hmessage⟩ := decodeJson_refused hnone
  refine ⟨message, ?_⟩
  have hjoined : left ++ line' ≠ [] := fun hnil => hne (List.append_eq_nil_iff.mp hnil).1
  rw [readRecord, if_neg hjoined, readLine, hmessage]

/-! ## Logs -/

/-- The lines of records. -/
abbrev AreLines (floats : Floats F) : List (LogRecord F) → List (List UInt8) → Prop :=
  List.Forall₂ (IsLine floats)

/-- Records as they are read. -/
def asRead (records : List (LogRecord F)) : List (Value F) :=
  records.map fun record => (Value.obj record).sorted

/-- What was appended stands at the end of the file, line by line. -/
theorem appendAll_eq_ok (h : appendAll floats file records = .ok file') :
    ∃ lines, AreLines floats records lines ∧ file'.getD [] = file.getD [] ++ joined lines := by
  induction records generalizing file with
  | nil =>
    cases h
    exact ⟨[], .nil, by simp [joined]⟩
  | cons record records ih =>
    rw [appendAll, List.foldlM_cons] at h
    cases happend : appendJsonl floats file record with
    | error e =>
      rw [happend] at h
      cases h
    | ok file₁ =>
      rw [happend] at h
      obtain ⟨lines, hlines, hcontent⟩ := ih h
      unfold appendJsonl at happend
      cases hencoded : encodedJsonLine floats (.obj record) with
      | error e =>
        rw [hencoded] at happend
        cases happend
      | ok encoded =>
        rw [hencoded] at happend
        cases happend
        obtain ⟨line, hline, rfl⟩ := encodedJsonLine_eq_ok.mp hencoded
        refine ⟨line :: lines, .cons hline hlines, ?_⟩
        rw [hcontent]
        simp [joined]

theorem AreLines.unbroken (h : AreLines floats records lines) : ∀ line ∈ lines, Unbroken line := by
  induction h with
  | nil => simp
  | cons hline _ ih =>
    rintro l (_ | ⟨_, hl⟩)
    · exact hline.unbroken
    · exact ih l hl

theorem AreLines.mapM_readRecord (h : AreLines floats records lines) :
    lines.mapM (readRecord floats) = .ok (asRead records) := by
  induction h with
  | nil => rfl
  | cons hline _ ih =>
    rw [List.mapM_cons, hline.readRecord, ih]
    rfl

theorem AreLines.mapM_readLine (h : AreLines floats records lines) :
    (lines.map (· ++ [0x0A])).mapM (readLine floats) = .ok (asRead records) := by
  induction h with
  | nil => rfl
  | cons hline _ ih =>
    have hbreak : encodeText ['\n'] = [0x0A] := by decide
    rw [List.map_cons, List.mapM_cons, ← hbreak, hline.readLine (.inr rfl), hbreak, ih]
    rfl

/-- A line that is not read among others is refused. -/
theorem AreLines.mapM_refused (h : AreLines floats records lines) {bad : List UInt8}
    {message : String} (hbad : readRecord floats bad = .error (.format message))
    (more : List (List UInt8)) :
    (lines ++ bad :: more).mapM (readRecord floats) = .error (.format message) := by
  induction h with
  | nil =>
    rw [List.nil_append, List.mapM_cons, hbad]
    rfl
  | cons hline _ ih =>
    rw [List.cons_append, List.mapM_cons, hline.readRecord, ih]
    rfl

/-- A log of records is read as these. -/
theorem AreLines.readJsonl (h : AreLines floats records lines) :
    readJsonl floats (some (joined lines)) = .ok (asRead records) := by
  rw [readJsonl_joined h.unbroken, h.mapM_readRecord]

theorem AreLines.append {records' : List (LogRecord F)} {lines' : List (List UInt8)}
    (h : AreLines floats records lines) (h' : AreLines floats records' lines') :
    AreLines floats (records ++ records') (lines ++ lines') :=
  List.rel_append h h'

theorem joined_append (lines lines' : List (List UInt8)) :
    joined (lines ++ lines') = joined lines ++ joined lines' := List.flatMap_append

/-- No file is read as an empty one. -/
theorem readJsonl_getD {content : List UInt8} (h : file.getD [] = content) :
    readJsonl floats file = readJsonl floats (some content) := by
  cases file with
  | none =>
    cases h
    rfl
  | some bytes =>
    cases h
    rfl

/-- A log with a torn line in it, whether or not more was appended, is refused. -/
theorem AreLines.readJsonl_torn {records' : List (LogRecord F)} {left : List UInt8}
    {lines' : List (List UInt8)} (h : AreLines floats records lines)
    (hline : IsLine floats record line) (hleft : left <+: line) (hne : left ≠ [])
    (h' : AreLines floats records' lines') :
    ∃ message, Filesystem.readJsonl floats (some (joined lines ++ (left ++ joined lines'))) =
      .error (.format message) := by
  have hunbroken : Unbroken left := fun b hb => hline.unbroken b (hleft.subset hb)
  cases h' with
  | nil =>
    -- nothing was appended after it, so the file ends in the torn line
    have hnil : joined [] = [] := rfl
    have hlast : (joined lines ++ left).getLast? ≠ some 0x0A := by
      rw [List.getLast?_append_of_ne_nil _ hne]
      intro hlast
      exact (hunbroken _ (List.mem_of_getLast? hlast)).1 rfl
    rw [hnil, List.append_nil, Filesystem.readJsonl, if_neg (by simp [hne]), if_pos hlast]
    exact ⟨_, rfl⟩
  | cons hline' hmore =>
    rename_i record' line' records' lines'
    have htorn : joined lines ++ (left ++ joined (line' :: lines')) =
        joined (lines ++ (left ++ line') :: lines') := by
      simp [joined]
    obtain ⟨message, hmessage⟩ := readRecord_torn hline hline' hleft hne
    refine ⟨message, ?_⟩
    rw [htorn, readJsonl_joined, h.mapM_refused hmessage]
    intro l hl
    rcases List.mem_append.mp hl with hl | hl
    · exact h.unbroken l hl
    · rcases List.mem_cons.mp hl with rfl | hl
      · intro b hb
        exact (List.mem_append.mp hb).elim (hunbroken b) (hline'.unbroken b)
      · exact AreLines.unbroken hmore l hl

theorem flatten_lines (lines : List (List UInt8)) :
    (lines.map (· ++ [0x0A])).flatten = joined lines := rfl

/-- The first records of a log are restored, whatever comes after them. -/
theorem AreLines.repairJsonlPrefix (h : AreLines floats records lines)
    (hfile : file.getD [] = joined lines ++ rest) :
    ∃ file', Filesystem.repairJsonlPrefix floats file records.length =
        .ok (file', asRead records) ∧
      Filesystem.readJsonl floats file' = .ok (asRead records) := by
  cases file with
  | none =>
    have hnil : joined lines = [] := (List.append_eq_nil_iff.mp hfile.symm).1
    cases h with
    | nil => exact ⟨none, rfl, rfl⟩
    | cons hline hlines => simp [joined] at hnil
  | some content =>
    have hcontent : content = joined lines ++ rest := hfile
    have hlength : (lines.map (· ++ [0x0A])).length = records.length := by
      rw [List.length_map, h.length_eq]
    have hkept : (splitLines content).take records.length = lines.map (· ++ [0x0A]) := by
      rw [hcontent, splitLines_joined h.unbroken, ← hlength, List.take_left]
    have hwhole :
        ((lines.map (· ++ [0x0A])).any fun line => line.getLast? ≠ some 0x0A) = false := by
      rw [List.any_eq_false]
      intro l hl
      obtain ⟨l', -, rfl⟩ := List.mem_map.mp hl
      simp
    refine ⟨some (joined lines), ?_, h.readJsonl⟩
    simp only [Filesystem.repairJsonlPrefix, hkept, hlength, hwhole, h.mapM_readLine, flatten_lines,
      ne_eq, not_true_eq_false, Bool.false_eq_true, or_self, if_false]
    rfl

/-- What an append leaves that is cut after some bytes of its line, the file not yet made among
it. -/
def Cut (file : File) (encoded : List UInt8) (k : Nat) (file' : File) : Prop :=
  (k = 0 ∧ file' = file) ∨ file' = some (file.getD [] ++ encoded.take k)

/-- Whether a log is read as some records, up to the order of their members. -/
def Reads (floats : Floats F) (file : File) (records : List (LogRecord F)) : Prop :=
  ∃ values, readJsonl floats file = .ok values ∧
    List.Forall₂ Value.Same values (records.map Value.obj)

theorem same_asRead (records : List (LogRecord F)) :
    List.Forall₂ Value.Same (asRead records) (records.map Value.obj) := by
  rw [asRead, List.forall₂_map_left_iff, List.forall₂_map_right_iff, List.forall₂_same]
  exact fun record _ => Value.same_sorted _

variable {before after : List (LogRecord F)} {encoded : List UInt8} {k : Nat}
  {file₁ file₂ file₃ : File}

/-- A log with one append cut and more appended after it: it is read as the records that were
appended whole if nothing of the other was left, or all of it, and refused otherwise; and the
records before the cut can be restored. -/
theorem log_cut (hbefore : appendAll floats none before = .ok file₁)
    (hencoded : encodedJsonLine floats (.obj record) = .ok encoded) (hk : k ≤ encoded.length)
    (hcut : Cut file₁ encoded k file₂) (hafter : appendAll floats file₂ after = .ok file₃) :
    (k = 0 → Reads floats file₃ (before ++ after)) ∧
    (k = encoded.length → Reads floats file₃ (before ++ record :: after)) ∧
    (0 < k → k < encoded.length → ∃ message, readJsonl floats file₃ = .error (.format message)) ∧
    ∃ file₄ values, repairJsonlPrefix floats file₃ before.length = .ok (file₄, values) ∧
      List.Forall₂ Value.Same values (before.map Value.obj) ∧ Reads floats file₄ before := by
  obtain ⟨lines₁, hlines₁, hfile₁⟩ := appendAll_eq_ok hbefore
  obtain ⟨line, hline, rfl⟩ := encodedJsonLine_eq_ok.mp hencoded
  obtain ⟨lines₃, hlines₃, hfile₃⟩ := appendAll_eq_ok hafter
  have hfile₂ : file₂.getD [] = joined lines₁ ++ (line ++ [0x0A]).take k := by
    rcases hcut with ⟨rfl, rfl⟩ | rfl
    · rw [hfile₁, List.take_zero, List.append_nil]
      rfl
    · rw [Option.getD_some, hfile₁]
      rfl
  rw [hfile₂, List.append_assoc] at hfile₃
  have hreads {records : List (LogRecord F)} {lines : List (List UInt8)}
      (hlines : AreLines floats records lines) (hfile : file₃.getD [] = joined lines) :
      Reads floats file₃ records :=
    ⟨_, (readJsonl_getD hfile).trans hlines.readJsonl, same_asRead records⟩
  refine ⟨?_, ?_, ?_, ?_⟩
  · rintro rfl
    refine hreads (hlines₁.append hlines₃) ?_
    rw [hfile₃, joined_append, List.take_zero, List.nil_append]
  · rintro rfl
    refine hreads (hlines₁.append (.cons hline hlines₃)) ?_
    rw [hfile₃, joined_append, List.take_length]
    rfl
  · intro hpos hless
    rw [List.length_append, List.length_singleton] at hless
    have htake : (line ++ [0x0A]).take k = line.take k := List.take_append_of_le_length (by omega)
    have hleft : line.take k ≠ [] := by
      rw [ne_eq, List.take_eq_nil_iff, not_or]
      exact ⟨by omega, hline.ne_nil⟩
    rw [readJsonl_getD hfile₃, htake]
    exact hlines₁.readJsonl_torn hline ⟨line.drop k, List.take_append_drop k line⟩ hleft hlines₃
  · obtain ⟨file₄, hrepair, hread⟩ := hlines₁.repairJsonlPrefix hfile₃
    exact ⟨file₄, _, hrepair, same_asRead before, _, hread, same_asRead before⟩

theorem IsLine.appendJsonl (h : IsLine floats record line) (file : File) :
    Filesystem.appendJsonl floats file record =
      .ok (some (file.getD [] ++ (line ++ [0x0A]))) := by
  rw [Filesystem.appendJsonl, encodedJsonLine_eq_ok.mpr ⟨line, h, rfl⟩]
  rfl

theorem isLine_empty : IsLine spelledFloats [] (encodeText "\x7b\x7d".toList) :=
  ⟨[], rfl, rfl, by simp only [compact]; rfl⟩

theorem isLine_member :
    IsLine spelledFloats [([0x61], .null)] (encodeText "\x7b\"a\":null\x7d".toList) :=
  ⟨[(['a'], .null)], rfl, rfl, by simp only [compact, compactMembers]; rfl⟩

/-- An object cut in its first key, between two empty ones. -/
theorem log_cut_in_key :
    (∃ message, readJsonl spelledFloats
      (some (encodeText "\x7b\x7d\n\x7b\"\x7b\x7d\n".toList)) = .error (.format message)) ∧
    ∃ file values, repairJsonlPrefix spelledFloats
        (some (encodeText "\x7b\x7d\n\x7b\"\x7b\x7d\n".toList)) 1 = .ok (file, values) ∧
      List.Forall₂ Value.Same values [.obj []] ∧ Reads spelledFloats file [[]] := by
  have happend (file : File) := isLine_empty.appendJsonl file
  have hcut := @log_cut _ spelledFloats [([0x61], .null)] [[]] [[]] _ 2 _
    (some (encodeText "\x7b\x7d\n\x7b\"".toList))
    (some (encodeText "\x7b\x7d\n\x7b\"\x7b\x7d\n".toList))
    (by rw [appendAll, List.foldlM_cons, happend]; rfl)
    (encodedJsonLine_eq_ok.mpr ⟨_, isLine_member, rfl⟩) (by decide) (.inr rfl)
    (by rw [appendAll, List.foldlM_cons, happend]; rfl)
  exact ⟨hcut.2.2.1 (by decide) (by decide), hcut.2.2.2⟩

end Filesystem

end Orqalis
