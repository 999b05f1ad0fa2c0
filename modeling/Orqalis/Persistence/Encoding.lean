import Orqalis.Domain.Base
import Orqalis.Lib.Loads
import Orqalis.Lib.Utf8

/-!
# JSON documents

How a document's bytes are read and written. Reading refuses bytes that are no UTF-8, texts that
are no JSON, the constants for non-finite numbers, and objects with a key twice; writing refuses
numbers that are not finite and strings that have no bytes, and reads what it wrote once.

The two differ: a number too large to be finite and the escape of a lone surrogate are read. What
was read can be written and read again exactly where the text has neither (`rewritable_iff`).
-/

namespace Orqalis

open Lib Lib.Json Lib.Utf8

namespace Filesystem

variable {F : Type} (floats : Floats F)

/-- `_decode_json` -/
def decodeJson (content : List UInt8) : Except Error (Value F) :=
  match decode content with
  | none => .error (.format "Invalid JSON document")
  | some text =>
    match Value.parseText floats text with
    | none => .error (.format "Invalid JSON document")
    | some v => if v.unique then .ok v else .error (.format "Duplicate JSON object key")

/-- Write a value with its keys in order, and read it once. -/
def encodedBy (write : Json → List Char) (v : Value F) : Except Error (List UInt8) :=
  match v.sorted.spell floats with
  | none => .error (.format "Value is not valid JSON")
  | some j =>
    let encoded := encodeText (write j ++ ['\n'])
    (decodeJson floats encoded).map fun _ => encoded

/-- `_encoded_json` -/
def encodedJson (v : Value F) : Except Error (List UInt8) := encodedBy floats (dumps 0) v

/-- `_encoded_json_line` -/
def encodedJsonLine (v : Value F) : Except Error (List UInt8) :=
  encodedBy floats (compact escape) v

variable {floats} {write : Json → List Char} {content out : List UInt8} {v w : Value F} {j : Json}

theorem decodeJson_eq_ok : decodeJson floats content = .ok v ↔
    ∃ text, content = encodeText text ∧ Value.parseText floats text = some v ∧ v.unique := by
  unfold decodeJson
  constructor
  · intro h
    cases htext : decode content with
    | none =>
      rw [htext] at h
      cases h
    | some text =>
      cases hv : Value.parseText floats text with
      | none =>
        simp only [htext, hv] at h
        cases h
      | some v' =>
        simp only [htext, hv] at h
        split_ifs at h with hunique
        cases h
        exact ⟨text, decode_eq_some.mp htext, hv, hunique⟩
  · rintro ⟨text, rfl, hv, hunique⟩
    simp only [decode_encodeText, hv, if_pos hunique]

/-- The line break after a document is white space. -/
theorem ends_newline_nil : Ends ['\n'] := ends_cons (by decide)

/-- What was written is read with the keys in order. -/
theorem decodeJson_spell (hwrite : Value.ReadBack write) (hj : v.sorted.spell floats = some j)
    (hunique : v.unique) :
    decodeJson floats (encodeText (write j ++ ['\n'])) = .ok v.sorted :=
  decodeJson_eq_ok.mpr ⟨_, rfl, Value.parseText_spell hwrite hj ends_newline_nil rfl,
    (Value.unique_sorted v).trans hunique⟩

/-- What is written: a value that can be, without a key twice. -/
theorem encodedBy_eq_ok (hwrite : Value.ReadBack write) : encodedBy floats write v = .ok out ↔
    ∃ j, v.sorted.spell floats = some j ∧ v.unique ∧ out = encodeText (write j ++ ['\n']) := by
  unfold encodedBy
  cases hj : v.sorted.spell floats with
  | none => simp
  | some j =>
    have hread := Value.parseText_spell hwrite hj ends_newline_nil rfl
    by_cases hunique : v.unique
    · simp only [decodeJson_spell hwrite hj hunique, Except.map, Except.ok.injEq, Option.some.injEq,
        exists_eq_left', hunique, true_and, eq_comm]
    · have hrefused : decodeJson floats (encodeText (write j ++ ['\n'])) =
          .error (.format "Duplicate JSON object key") := by
        unfold decodeJson
        simp only [decode_encodeText, hread, Value.unique_sorted, if_neg hunique]
      simp [hrefused, Except.map, hunique]

/-- Whether a value can be written, and what was written is read as the value again. -/
def Rewritable (floats : Floats F) (encode : Value F → Except Error (List UInt8)) (v : Value F) :
    Prop :=
  ∃ out, encode v = .ok out ∧ ∃ w, decodeJson floats out = .ok w ∧ Value.Same w v

theorem rewritable_encodedBy (hwrite : Value.ReadBack write) (hunique : v.unique) :
    Rewritable floats (encodedBy floats write) v ↔ v.writable floats := by
  rw [← Value.writable_sorted, ← Value.isSome_spell, Option.isSome_iff_exists]
  constructor
  · rintro ⟨out, hout, -⟩
    obtain ⟨j, hj, -⟩ := (encodedBy_eq_ok hwrite).mp hout
    exact ⟨j, hj⟩
  · rintro ⟨j, hj⟩
    exact ⟨_, (encodedBy_eq_ok hwrite).mpr ⟨j, hj, hunique, rfl⟩, _,
      decodeJson_spell hwrite hj hunique, Value.same_sorted v⟩

/-- Whether a text has no escape of a lone surrogate and no number too large to be finite. -/
def Encodable (floats : Floats F) (content : List UInt8) : Prop :=
  ∃ text, decode content = some text ∧ Value.fineText floats text

/-- What was read can be written, by either writer, and read again exactly where its text has no
lone surrogate and no number too large. -/
theorem rewritable_iff (h : decodeJson floats content = .ok v) :
    (Rewritable floats (encodedJson floats) v ↔ Encodable floats content) ∧
      (Rewritable floats (encodedJsonLine floats) v ↔ Encodable floats content) := by
  obtain ⟨text, rfl, htext, hunique⟩ := decodeJson_eq_ok.mp h
  have hencodable : Encodable floats (encodeText text) ↔ v.writable floats := by
    unfold Encodable
    simp only [decode_encodeText, Option.some.injEq, exists_eq_left',
      Value.writable_parseText htext]
  rw [hencodable]
  exact ⟨rewritable_encodedBy Value.readBack_dumps hunique,
    rewritable_encodedBy Value.readBack_compact hunique⟩

/-- Floating point numbers by their spelling, where one of them is too large. -/
def spelledFloats :
    Floats (Option { n : Number // n.fractional ∧ n.spelling ≠ "1e400".toList }) where
  read n := if h : n.fractional ∧ n.spelling ≠ "1e400".toList then some ⟨n, h⟩ else none
  write x := x.map Subtype.val
  fractional := by
    rintro x n h
    obtain ⟨y, -, rfl⟩ := Option.map_eq_some_iff.mp h
    exact y.2.1
  exact := by
    rintro x n h
    obtain ⟨y, rfl, rfl⟩ := Option.map_eq_some_iff.mp h
    exact dif_pos y.2

/-- A number. -/
def half : Number := ⟨"0.5".toList, by decide, by decide⟩

theorem half_rewritable :
    (Rewritable spelledFloats (encodedJson spelledFloats) (.float (spelledFloats.read half)) ↔
        Encodable spelledFloats (encodeText "0.5".toList)) ∧
      (Rewritable spelledFloats (encodedJsonLine spelledFloats) (.float (spelledFloats.read half)) ↔
        Encodable spelledFloats (encodeText "0.5".toList)) :=
  rewritable_iff (decodeJson_eq_ok.mpr ⟨_, rfl, rfl, rfl⟩)

/-- The escape of a lone surrogate is read, and what was read is not written. -/
theorem surrogate_not_rewritable :
    decodeJson spelledFloats (encodeText "\"\\ud800\"".toList) = .ok (.str [0xD800]) ∧
      ¬ Rewritable spelledFloats (encodedJson spelledFloats) (.str [0xD800]) := by
  refine ⟨decodeJson_eq_ok.mpr ⟨_, rfl, rfl, rfl⟩, ?_⟩
  rintro ⟨out, hout, -⟩
  obtain ⟨j, hj, -⟩ := (encodedBy_eq_ok Value.readBack_dumps).mp hout
  cases hj

end Filesystem

end Orqalis
