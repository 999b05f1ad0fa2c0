import Orqalis.Lib.Outcome
import Orqalis.Memory.Navigation

/-!
# Answers that state their own size

Memory reads, symbol reads and context packs are contracts with a field `size_chars`, which is to
hold the length of the contract's own JSON text. Each service sets it in a loop of four rounds:
serialise, compare, copy with the new length. A round may change the number of digits of the
field, and with it the length.

Four rounds are enough from any number whose text is a Python string (`sizes_settle`): such a
number has less than twenty digits, so that after two rounds the field is next to its final value.
-/

namespace Orqalis

open Lib Lib.Json Lib.Outcome

/-- `sys.maxsize`, the most characters a string can have. -/
def sysMaxsize : Nat := 2 ^ 63 - 1

/-- `len` of a text that is built up; a text beyond the size of a string cannot be. -/
def len (text : List Char) : Except Error Nat :=
  if text.length ≤ sysMaxsize then .ok text.length else .error (.runtime "MemoryError")

/-- A contract with a field for the length of its own text: how it is serialised, and copied with
another number in the field. The text holds the number in decimal digits, and no other part of
it depends on the number. -/
structure SizedContract (T : Type) where
  modelDumpJson : T → List Char
  sizeChars : T → Nat
  modelCopy : T → Nat → T
  sizeChars_modelCopy : ∀ value n, sizeChars (modelCopy value n) = n
  modelCopy_sizeChars : ∀ value, modelCopy value (sizeChars value) = value
  modelCopy_modelCopy : ∀ value m n, modelCopy (modelCopy value m) n = modelCopy value n
  decimal : ∀ value, ∃ front back, ∀ n,
    modelDumpJson (modelCopy value n) = front ++ Nat.toDigits 10 n ++ back

variable {T : Type} (contract : SizedContract T)

/-! ## The loops -/

/-- Rounds of setting the field to the length of the text, until it does not change. -/
def sizeRounds : Nat → T → Except Error T
  | 0, value => .ok value
  | rounds + 1, value => do
    let actual ← len (contract.modelDumpJson value)
    if actual = contract.sizeChars value then .ok value
    else sizeRounds rounds (contract.modelCopy value actual)

/-- `_size` of the memory navigation. -/
def MemoryNavigation.size : T → Except Error T := sizeRounds contract 4

/-- `_size` of the symbol reads. -/
def SymbolService.size : T → Except Error T := sizeRounds contract 4

/-- The last loop of `_fit`, which sets the size of a context pack. -/
def ContextBuilder.setSize : T → Except Error T := sizeRounds contract 4

/-! ## What the rounds come to -/

/-- The outcome of a size loop: a copy of the value that is as long as it says. The loop does not
come to one only where it meets a text that no string can hold, which is that of the value it
starts from or of one with a field of at most nineteen digits. -/
def Settles (value : T) : Except Error T → Prop
  | .ok sized => contract.sizeChars sized = (contract.modelDumpJson sized).length ∧
      sized = contract.modelCopy value (contract.sizeChars sized)
  | .error _ => ∃ n, sysMaxsize < (contract.modelDumpJson (contract.modelCopy value n)).length ∧
      (n = contract.sizeChars value ∨ n ≤ sysMaxsize)

theorem len_eq_ok {text : List Char} {n : Nat} :
    len text = .ok n ↔ text.length ≤ sysMaxsize ∧ text.length = n := by
  unfold len
  rw [ite_ok_eq_ok]
  simp

variable {contract} {value sized : T} {rest : Nat}

/-- The length of a contract's text, but for the digits of the field. -/
theorem SizedContract.length_eq (contract : SizedContract T) (value : T) :
    ∃ rest, ∀ n, (contract.modelDumpJson (contract.modelCopy value n)).length =
      rest + width n := by
  obtain ⟨front, back, htext⟩ := contract.decimal value
  refine ⟨front.length + back.length, fun n => ?_⟩
  rw [htext, List.length_append, List.length_append]
  unfold width
  omega

/-- The rounds set the field as they would a number, from a text that can be a string. -/
theorem sizeRounds_eq_ok (hrest : ∀ n, (contract.modelDumpJson
    (contract.modelCopy value n)).length = rest + width n) {rounds start : Nat}
    (h : sizeRounds contract rounds (contract.modelCopy value start) = .ok sized) :
    sized = contract.modelCopy value (settleFrom rest rounds start) ∧
      (0 < rounds → rest + width start ≤ sysMaxsize) := by
  induction rounds generalizing start with
  | zero =>
    cases h
    exact ⟨rfl, fun hpos => absurd hpos (Nat.lt_irrefl 0)⟩
  | succ rounds ih =>
    obtain ⟨actual, hlen, hround⟩ := bind_eq_ok.mp h
    obtain ⟨hfits, rfl⟩ := len_eq_ok.mp hlen
    rw [hrest] at hfits
    rw [contract.sizeChars_modelCopy, contract.modelCopy_modelCopy, hrest] at hround
    refine ⟨?_, fun _ => hfits⟩
    split_ifs at hround with hsame
    · cases hround
      rw [settleFrom_of_eq _ hsame]
    · rw [settleFrom_succ]
      exact (ih hround).1

/-- The rounds stop only at a text that no string can hold. -/
theorem sizeRounds_eq_error {e : Error} {rounds start : Nat}
    (h : sizeRounds contract rounds (contract.modelCopy value start) = .error e) :
    ∃ n, sysMaxsize < (contract.modelDumpJson (contract.modelCopy value n)).length ∧
      (n = start ∨ n ≤ sysMaxsize) := by
  induction rounds generalizing start with
  | zero => cases h
  | succ rounds ih =>
    by_cases hfits : (contract.modelDumpJson (contract.modelCopy value start)).length ≤ sysMaxsize
    · have hlen := len_eq_ok.mpr ⟨hfits, rfl⟩
      unfold sizeRounds at h
      rw [hlen, ok_bind, contract.modelCopy_modelCopy] at h
      split_ifs at h
      obtain ⟨n, hlong, rfl | hn⟩ := ih h
      · exact ⟨_, hlong, .inr hfits⟩
      · exact ⟨n, hlong, .inr hn⟩
    · exact ⟨start, Nat.lt_of_not_le hfits, .inl rfl⟩

/-- Four rounds settle the size of a contract. -/
theorem sizeRounds_settles (contract : SizedContract T) (value : T) :
    Settles contract value (sizeRounds contract 4 value) := by
  obtain ⟨rest, hrest⟩ := contract.length_eq value
  have hself := contract.modelCopy_sizeChars value
  cases h : sizeRounds contract 4 value with
  | error e =>
    rw [← hself] at h
    exact sizeRounds_eq_error h
  | ok sized =>
    rw [← hself] at h
    obtain ⟨hsized, hfits⟩ := sizeRounds_eq_ok hrest h
    have hdigits : width (rest + width (contract.sizeChars value)) ≤ 9 * 10 ^ width (rest + 1) := by
      have hmax : sysMaxsize < 10 ^ 19 := by decide
      have hnineteen : width (rest + width (contract.sizeChars value)) ≤ 19 :=
        (width_le_iff (by decide)).mpr (Nat.lt_of_le_of_lt (hfits (by decide)) hmax)
      have hten : 10 ^ 1 ≤ 10 ^ width (rest + 1) :=
        Nat.pow_le_pow_right (by decide) (width_pos _)
      omega
    have hsettled := settleFrom_settled hdigits
    have hsize : contract.sizeChars sized =
        settleFrom rest 4 (contract.sizeChars value) := by
      rw [hsized, contract.sizeChars_modelCopy]
    refine ⟨?_, hsize ▸ hsized⟩
    rw [hsize, hsized, hrest, hsettled]

/-! ## Contracts with a size field -/

/-- An object with a size among its members, as every contract of the services is written. -/
structure SizedObject where
  before : List (List Char × Json)
  size : Nat
  after : List (List Char × Json)

def SizedObject.json (o : SizedObject) : Json :=
  .obj (o.before ++ ("size_chars".toList, natural o.size) :: o.after)

/-- Objects with a size, written without white space. -/
def objectContract : SizedContract SizedObject where
  modelDumpJson o := compact escape o.json
  sizeChars := SizedObject.size
  modelCopy o n := { o with size := n }
  sizeChars_modelCopy _ _ := rfl
  modelCopy_sizeChars _ := rfl
  modelCopy_modelCopy _ _ _ := rfl
  decimal o := compact_obj_natural escape o.before o.after "size_chars".toList

section Page

open MemoryNavigation

/-- The text of a page holds its size in decimal digits. -/
theorem pageJson_decimal (page : MemoryReadPage) : ∃ front back, ∀ n,
    compact escape (pageJson { page with sizeChars := n }) =
      front ++ Nat.toDigits 10 n ++ back := by
  obtain ⟨front, back, htext⟩ := compact_obj_natural escape [
    ("item".toList, itemJson page.item),
    ("source".toList, provenanceJson page.source),
    ("verified_commit".toList, nullable page.verifiedCommit),
    ("content".toList, .str page.content),
    ("offset".toList, natural page.offset),
    ("next_offset".toList, nullableNumber page.nextOffset),
    ("references".toList, .arr (page.references.map fun r => .str r.text))]
    [("max_chars".toList, natural page.maxChars)] "size_chars".toList
  refine ⟨front, back, fun n => ?_⟩
  rw [← htext n]
  rfl

/-- The pages of a memory record. -/
def pageContract : SizedContract MemoryReadPage where
  modelDumpJson page := compact escape (pageJson page)
  sizeChars := MemoryReadPage.sizeChars
  modelCopy page n := { page with sizeChars := n }
  sizeChars_modelCopy _ _ := rfl
  modelCopy_sizeChars _ := rfl
  modelCopy_modelCopy _ _ _ := rfl
  decimal := pageJson_decimal

/-- A page is sized as the reading of a record sizes it. -/
theorem size_pageContract {page sized : MemoryReadPage}
    (h : MemoryNavigation.size pageContract page = .ok sized) :
    sized = MemoryNavigation.sized 4 page := by
  have hlength : ∀ n, (pageContract.modelDumpJson (pageContract.modelCopy page n)).length =
      bulk page + width n := by
    intro n
    have hpage := pageLength_eq { page with sizeChars := n }
    exact hpage
  rw [sized_eq]
  have h' : sizeRounds pageContract 4 (pageContract.modelCopy page page.sizeChars) = .ok sized := h
  exact (sizeRounds_eq_ok hlength h').1

end Page

/-- The size loops of memory reads, symbol reads and context packs end with a field that holds
the length of the final text, from whatever number they start. -/
theorem sizes_settle (contract : SizedContract T) (value : T) :
    Settles contract value (MemoryNavigation.size contract value) ∧
      Settles contract value (SymbolService.size contract value) ∧
      Settles contract value (ContextBuilder.setSize contract value) :=
  ⟨sizeRounds_settles contract value, sizeRounds_settles contract value,
    sizeRounds_settles contract value⟩

end Orqalis
