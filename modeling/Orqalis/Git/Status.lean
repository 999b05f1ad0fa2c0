import Mathlib.Data.List.Dedup
import Mathlib.Data.List.Infix
import Mathlib.Data.List.Lex
import Mathlib.Data.List.Sort
import Mathlib.Data.List.TakeWhile
import Orqalis.Domain.Base
import Orqalis.Lib.Utf8

/-!
# The status of a worktree

What `git status --porcelain=v2 --branch -z` prints, as the service reads it: bytes decoded with
lone surrogates for what is no UTF-8, records ended by NUL, fields set apart by spaces, and the
original path of a renamed file in the record after it.

A document is read entry by entry (`readRecords_records`), since neither a NUL nor a space is part
of a character of several bytes; and a document that was read has only whole entries and names
each of commit and branch once (`readRecords_whole`).
-/

namespace Orqalis

open Lib Lib.Utf8

namespace LocalGitService

/-- A text, by its code points. -/
abbrev Codes := List Nat

/-- The code points of a text. -/
def codes (s : String) : Codes := s.toList.map Char.toNat

/-- The bytes of a text of ASCII characters. -/
def ascii (s : String) : List UInt8 := s.toList.map fun c => .ofNat c.toNat

/-- Whether a text is one of ASCII characters. -/
def isAscii (s : String) : Bool := s.toList.all fun c => c.toNat < 0x80

/-- The code point of a space. -/
def space : Nat := 0x20

/-- `split` -/
def split (sep : Nat) : Codes → List Codes
  | [] => [[]]
  | c :: rest =>
    if c = sep then [] :: split sep rest
    else
      match split sep rest with
      | [] => [[c]]
      | record :: records => (c :: record) :: records

/-- `split`, so many times at most. -/
def splitMax (sep : Nat) : Nat → Codes → List Codes
  | 0, s => [s]
  | n + 1, s =>
    if s.contains sep then
      s.takeWhile (· ≠ sep) :: splitMax sep n (s.dropWhile (· ≠ sep)).tail
    else [s]

/-- What was read so far. -/
structure StatusState where
  head : Option Codes := none
  branch : Option Codes := none
  paths : List Codes := []

/-- Note a path. -/
def StatusState.add (s : StatusState) (path : Codes) : StatusState :=
  { s with paths := path :: s.paths }

/-- Read records; nothing where one of them is invalid. -/
def readRecords : List Codes → StatusState → Option StatusState
  | [], s => some s
  | record :: rest, s =>
    if record = [] then none
    else if (codes "# branch.oid ").isPrefixOf record then
      if s.head.isSome then none
      else readRecords rest { s with head := some (record.drop (codes "# branch.oid ").length) }
    else if (codes "# branch.head ").isPrefixOf record then
      if s.branch.isSome then none
      else readRecords rest { s with branch := some (record.drop (codes "# branch.head ").length) }
    else if (codes "# ").isPrefixOf record then readRecords rest s
    else if (codes "1 ").isPrefixOf record then
      match (splitMax space 8 record)[8]? with
      | none => none
      | some path => readRecords rest (s.add path)
    else if (codes "2 ").isPrefixOf record then
      match (splitMax space 9 record)[9]? with
      | none => none
      | some path =>
        match rest with
        | [] => none
        | original :: rest =>
          if original = [] then none else readRecords rest ((s.add path).add original)
    else if (codes "u ").isPrefixOf record then
      match (splitMax space 10 record)[10]? with
      | none => none
      | some path => readRecords rest (s.add path)
    else if (codes "? ").isPrefixOf record then readRecords rest (s.add (record.drop 2))
    else none

/-- The records of a document. -/
def records (raw : List UInt8) : List Codes := (split 0 (decodeEscape raw)).dropLast

/-- Whether a text names a commit. -/
def isCommit (head : Codes) : Bool :=
  (head.length = 40 ∨ head.length = 64) &&
    head.all fun c => (0x30 ≤ c && c ≤ 0x39) || (0x61 ≤ c && c ≤ 0x66)

/-- The status of a worktree. -/
structure GitStatus where
  branch : Option Codes
  head : Codes
  changedPaths : List Codes
deriving DecidableEq

/-- What was read, if it names a commit and a branch. -/
def StatusState.status (s : StatusState) : Except Error GitStatus :=
  match s.head, s.branch with
  | some head, some branch =>
    if ¬ isCommit head ∨ branch = [] ∨ s.paths.any List.isEmpty then
      .error (.runtime "Git status requires a committed HEAD and branch metadata")
    else
      .ok
        { branch := if branch = codes "(detached)" then none else some branch
          head
          changedPaths := s.paths.dedup.insertionSort (· ≤ ·) }
  | _, _ => .error (.runtime "Git status requires a committed HEAD and branch metadata")

/-- Read what was printed. -/
def status (raw : List UInt8) : Except Error GitStatus :=
  if raw.getLast? ≠ some 0 then
    .error (.runtime "Git returned an unterminated status document")
  else
    match readRecords (records raw) {} with
    | none => .error (.runtime "Git returned an invalid status document")
    | some s => s.status

/-! ## Splitting -/

variable {sep n : Nat} {a b record path : Codes} {rest : List Codes} {s t : StatusState}

theorem split_ne_nil (s : Codes) : split sep s ≠ [] := by
  cases s with
  | nil => simp [split]
  | cons c s =>
    unfold split
    split_ifs
    · simp
    · split <;> simp

theorem split_cons_ne {c : Nat} (hc : c ≠ sep) (h : split sep b = record :: rest) :
    split sep (c :: b) = (c :: record) :: rest := by
  rw [split, if_neg hc, h]

theorem split_append (ha : sep ∉ a) (b : Codes) : split sep (a ++ sep :: b) = a :: split sep b := by
  induction a with
  | nil => rw [List.nil_append, split, if_pos rfl]
  | cons c a ih =>
    rw [List.mem_cons, not_or] at ha
    exact split_cons_ne (Ne.symm ha.1) (ih ha.2)

theorem splitMax_append (ha : sep ∉ a) (b : Codes) :
    splitMax sep (n + 1) (a ++ sep :: b) = a :: splitMax sep n b := by
  have hmem : (a ++ sep :: b).contains sep = true := by simp
  have hne : ∀ c ∈ a, decide (c ≠ sep) = true := by
    intro c hc
    rw [decide_eq_true_eq]
    rintro rfl
    exact ha hc
  rw [splitMax, if_pos hmem, List.takeWhile_append_of_pos hne, List.dropWhile_append_of_pos hne]
  simp

/-- Fields, each before the separator, and what follows them. -/
def spaced {α : Type} (sep : α) (fields : List (List α)) (last : List α) : List α :=
  fields.foldr (fun field rest => field ++ sep :: rest) last

/-- What follows as many fields as there are splits is one part. -/
theorem splitMax_spaced {fields : List Codes} (h : ∀ field ∈ fields, sep ∉ field) (last : Codes) :
    (splitMax sep fields.length (spaced sep fields last))[fields.length]? = some last := by
  induction fields with
  | nil => rfl
  | cons field fields ih =>
    have hrest := ih fun f hf => h f (List.mem_cons_of_mem field hf)
    have hspaced : spaced sep (field :: fields) last = field ++ sep :: spaced sep fields last := rfl
    rw [hspaced, List.length_cons, splitMax_append (h field List.mem_cons_self)]
    exact hrest

theorem length_splitMax_le (n : Nat) (s : Codes) : (splitMax sep n s).length ≤ s.count sep + 1 := by
  induction n generalizing s with
  | zero => simp [splitMax]
  | succ n ih =>
    unfold splitMax
    split_ifs with hmem
    · have hmem : sep ∈ s := by simpa using hmem
      have hsplit := List.takeWhile_append_dropWhile (p := fun c => decide (c ≠ sep)) (l := s)
      cases hdrop : s.dropWhile fun c => decide (c ≠ sep) with
      | nil =>
        rw [List.dropWhile_eq_nil_iff] at hdrop
        simpa using hdrop sep hmem
      | cons c rest =>
        have hc : c = sep := by
          have := List.head?_dropWhile_not (fun c => decide (c ≠ sep)) s
          rw [hdrop] at this
          simpa using this
        have hcount : s.count sep = (s.takeWhile fun c => decide (c ≠ sep)).count sep +
            (rest.count sep + 1) := by
          conv_lhs => rw [← hsplit, hdrop, hc]
          rw [List.count_append, List.count_cons_self]
        have := ih rest
        rw [List.length_cons, List.tail_cons]
        omega
    · simp

/-- With fewer separators than splits there is no last part. -/
theorem splitMax_short {s : Codes} (h : s.count sep < n) : (splitMax sep n s)[n]? = none := by
  have := @length_splitMax_le sep n s
  exact List.getElem?_eq_none (by omega)

/-! ## Entries -/

/-- A field. -/
structure Field where
  bytes : List UInt8
  plain : 0 ∉ bytes ∧ 0x20 ∉ bytes

/-- What stands to the end of a record. -/
structure Name where
  bytes : List UInt8
  plain : 0 ∉ bytes

/-- A path. -/
structure StatusPath extends Name where
  nonempty : bytes ≠ []

/-- So many fields. -/
abbrev Fields (n : Nat) := { fields : List Field // fields.length = n }

/-- Fields and what follows them. -/
def Fields.before {n : Nat} (fields : Fields n) (path : StatusPath) : List UInt8 :=
  spaced 0x20 (fields.1.map Field.bytes) path.bytes

/-- An entry of a status. -/
inductive StatusEntry
  | oid (commit : Name)
  | head (branch : Name)
  | header (text : Name)
      (other : ¬ ascii "branch.oid " <+: text.bytes ∧ ¬ ascii "branch.head " <+: text.bytes)
  | ordinary (fields : Fields 7) (path : StatusPath)
  | renamed (fields : Fields 8) (path original : StatusPath)
  | unmerged (fields : Fields 9) (path : StatusPath)
  | untracked (path : StatusPath)

namespace StatusEntry

/-- The records of an entry. -/
def recordsOf : StatusEntry → List (List UInt8)
  | oid commit => [ascii "# branch.oid " ++ commit.bytes]
  | head branch => [ascii "# branch.head " ++ branch.bytes]
  | header text _ => [ascii "# " ++ text.bytes]
  | ordinary fields path => [ascii "1 " ++ fields.before path]
  | renamed fields path original => [ascii "2 " ++ fields.before path, original.bytes]
  | unmerged fields path => [ascii "u " ++ fields.before path]
  | untracked path => [ascii "? " ++ path.bytes]

/-- The commit an entry names. -/
def oid? : StatusEntry → Option Name
  | oid commit => some commit
  | _ => none

/-- The branch an entry names. -/
def head? : StatusEntry → Option Name
  | head branch => some branch
  | _ => none

/-- The paths an entry lists. -/
def paths : StatusEntry → List StatusPath
  | ordinary _ path | unmerged _ path | untracked path => [path]
  | renamed _ path original => [path, original]
  | _ => []

/-- What reading an entry does. -/
def step (s : StatusState) : StatusEntry → Option StatusState
  | oid commit =>
    if s.head.isSome then none else some { s with head := some (decodeEscape commit.bytes) }
  | head branch =>
    if s.branch.isSome then none else some { s with branch := some (decodeEscape branch.bytes) }
  | header _ _ => some s
  | ordinary _ path | unmerged _ path | untracked path => some (s.add (decodeEscape path.bytes))
  | renamed _ path original =>
    some ((s.add (decodeEscape path.bytes)).add (decodeEscape original.bytes))

end StatusEntry

/-! ## Decoding -/

theorem isAscii_iff {s : String} : isAscii s ↔ ∀ c ∈ s.toList, c.toNat < 0x80 := by
  simp [isAscii]

theorem decodeEscape_ascii_append (text : String) (h : isAscii text)
    (bytes : List UInt8) :
    decodeEscape (ascii text ++ bytes) = codes text ++ decodeEscape bytes := by
  rw [isAscii_iff] at h
  unfold ascii codes
  generalize text.toList = chars at h
  induction chars with
  | nil => rfl
  | cons c chars ih =>
    have hc : (UInt8.ofNat c.toNat).toNat = c.toNat :=
      toNat_ofNat (by have := h c List.mem_cons_self; omega)
    have hlow : (UInt8.ofNat c.toNat).toNat < 0x80 := by
      have := h c List.mem_cons_self
      omega
    rw [List.map_cons, List.map_cons, List.cons_append, List.cons_append,
      Utf8.decodeEscape_ascii hlow, hc, ih fun d hd => h d (List.mem_cons_of_mem c hd)]

/-- ASCII characters are those of the bytes. -/
theorem mem_of_mem_decodeEscape {b : UInt8} {bytes : List UInt8} (hb : b.toNat < 0x80)
    (h : b.toNat ∈ decodeEscape bytes) : b ∈ bytes := by
  rw [← encodeEscape_decodeEscape bytes]
  refine List.mem_flatMap.mpr ⟨b.toNat, h, ?_⟩
  rw [if_neg (by omega), encode_ascii hb, UInt8.ofNat_toNat]
  exact List.mem_singleton_self b

theorem ascii_isPrefix (text : String) (h : isAscii text)
    {bytes : List UInt8} (hcodes : codes text <+: decodeEscape bytes) : ascii text <+: bytes := by
  obtain ⟨rest, hrest⟩ := hcodes
  have hbytes := encodeEscape_decodeEscape bytes
  rw [← hrest] at hbytes
  refine ⟨encodeEscape rest, ?_⟩
  rw [← hbytes]
  unfold encodeEscape
  rw [List.flatMap_append]
  congr 1
  rw [isAscii_iff] at h
  unfold ascii codes
  rw [List.flatMap_map]
  generalize text.toList = chars at h
  induction chars with
  | nil => rfl
  | cons c chars ih =>
    have hc := h c List.mem_cons_self
    rw [List.map_cons, List.flatMap_cons, ih fun d hd => h d (List.mem_cons_of_mem c hd),
      if_neg (by omega), encode_ascii hc]
    rfl

/-! ## Reading entries -/

theorem decodeEscape_before {n : Nat} (fields : Fields n) (path : StatusPath) :
    decodeEscape (fields.before path) =
      spaced space (fields.1.map fun f => decodeEscape f.bytes) (decodeEscape path.bytes) := by
  unfold Fields.before
  induction fields.1 with
  | nil => rfl
  | cons field rest ih =>
    have hspaced : spaced (0x20 : UInt8) ((field :: rest).map Field.bytes) path.bytes =
        field.bytes ++ 0x20 :: spaced 0x20 (rest.map Field.bytes) path.bytes := rfl
    rw [hspaced, decodeEscape_append (by decide), Utf8.decodeEscape_ascii (by decide), ih]
    rfl

/-- The path of an entry comes after as many fields as it has. -/
theorem splitMax_entry {n : Nat} (marker : Nat) (hmarker : marker ≠ space) (fields : Fields n)
    (path : StatusPath) :
    (splitMax space (n + 1) (marker :: space :: decodeEscape (fields.before path)))[n + 1]? =
      some (decodeEscape path.bytes) := by
  have hplain : ∀ field ∈ fields.1.map (fun f => decodeEscape f.bytes), space ∉ field := by
    intro field hfield hspace
    obtain ⟨f, -, rfl⟩ := List.mem_map.mp hfield
    have hspace : (0x20 : UInt8).toNat ∈ decodeEscape f.bytes := hspace
    exact f.plain.2 (mem_of_mem_decodeEscape (by decide) hspace)
  have hlength : (fields.1.map fun f => decodeEscape f.bytes).length = n := by
    rw [List.length_map, fields.2]
  have hcons : marker :: space :: decodeEscape (fields.before path) =
      [marker] ++ space :: decodeEscape (fields.before path) := rfl
  rw [hcons, splitMax_append (by simpa using hmarker.symm), decodeEscape_before,
    List.getElem?_cons_succ]
  have hlast := splitMax_spaced hplain (decodeEscape path.bytes)
  rwa [hlength] at hlast

theorem decodeEscape_ne_nil (path : StatusPath) : decodeEscape path.bytes ≠ [] := by
  intro h
  have := encodeEscape_decodeEscape path.bytes
  rw [h] at this
  exact path.nonempty this.symm

theorem codes_oid : codes "# branch.oid " =
    [35, 32, 98, 114, 97, 110, 99, 104, 46, 111, 105, 100, 32] := by decide

theorem codes_head : codes "# branch.head " =
    [35, 32, 98, 114, 97, 110, 99, 104, 46, 104, 101, 97, 100, 32] := by decide

theorem codes_header : codes "# " = [35, 32] := by decide

theorem codes_ordinary : codes "1 " = [49, 32] := by decide

theorem codes_renamed : codes "2 " = [50, 32] := by decide

theorem codes_unmerged : codes "u " = [117, 32] := by decide

theorem codes_untracked : codes "? " = [63, 32] := by decide

/-- An entry is read as a whole. -/
theorem readRecords_entry (e : StatusEntry) (rest : List Codes) (s : StatusState) :
    readRecords (e.recordsOf.map decodeEscape ++ rest) s = (e.step s).bind (readRecords rest) := by
  cases e with
  | oid commit =>
    have hrecord := decodeEscape_ascii_append "# branch.oid " (by decide) commit.bytes
    simp only [StatusEntry.recordsOf, List.map_cons, List.map_nil, List.singleton_append, hrecord,
      StatusEntry.step]
    rw [readRecords]
    cases hhead : s.head <;> simp [codes_oid]
  | head branch =>
    have hrecord := decodeEscape_ascii_append "# branch.head " (by decide) branch.bytes
    simp only [StatusEntry.recordsOf, List.map_cons, List.map_nil, List.singleton_append, hrecord,
      StatusEntry.step]
    rw [readRecords]
    cases hhead : s.branch <;> simp [codes_oid, codes_head]
  | header text other =>
    have hrecord := decodeEscape_ascii_append "# " (by decide) text.bytes
    have hoid : ¬ codes "branch.oid " <+: decodeEscape text.bytes := fun h =>
      other.1 (ascii_isPrefix "branch.oid " (by decide) h)
    have hhead : ¬ codes "branch.head " <+: decodeEscape text.bytes := fun h =>
      other.2 (ascii_isPrefix "branch.head " (by decide) h)
    have hoidMark : codes "# branch.oid " = codes "# " ++ codes "branch.oid " := by decide
    have hheadMark : codes "# branch.head " = codes "# " ++ codes "branch.head " := by decide
    simp only [StatusEntry.recordsOf, List.map_cons, List.map_nil, List.singleton_append, hrecord,
      StatusEntry.step]
    rw [readRecords, hoidMark, hheadMark]
    simp [hoid, hhead, codes_header]
  | ordinary fields path =>
    have hrecord := decodeEscape_ascii_append "1 " (by decide) (fields.before path)
    have hmark : codes "1 " = [0x31, space] := by decide
    have hpath := splitMax_entry 0x31 (by decide) fields path
    rw [hmark] at hrecord
    simp only [StatusEntry.recordsOf, List.map_cons, List.map_nil, List.cons_append,
      List.nil_append, hrecord, StatusEntry.step]
    rw [readRecords, hpath]
    simp [codes_oid, codes_head, codes_header, codes_ordinary, space]
  | renamed fields path original =>
    have hrecord := decodeEscape_ascii_append "2 " (by decide) (fields.before path)
    have hmark : codes "2 " = [0x32, space] := by decide
    have hpath := splitMax_entry 0x32 (by decide) fields path
    rw [hmark] at hrecord
    simp only [StatusEntry.recordsOf, List.map_cons, List.map_nil, List.cons_append,
      List.nil_append, hrecord, StatusEntry.step]
    rw [readRecords, hpath]
    simp [codes_oid, codes_head, codes_header, codes_ordinary, codes_renamed, space,
      decodeEscape_ne_nil original]
  | unmerged fields path =>
    have hrecord := decodeEscape_ascii_append "u " (by decide) (fields.before path)
    have hmark : codes "u " = [0x75, space] := by decide
    have hpath := splitMax_entry 0x75 (by decide) fields path
    rw [hmark] at hrecord
    simp only [StatusEntry.recordsOf, List.map_cons, List.map_nil, List.cons_append,
      List.nil_append, hrecord, StatusEntry.step]
    rw [readRecords, hpath]
    simp [codes_oid, codes_head, codes_header, codes_ordinary, codes_renamed, codes_unmerged, space]
  | untracked path =>
    have hrecord := decodeEscape_ascii_append "? " (by decide) path.bytes
    simp only [StatusEntry.recordsOf, List.map_cons, List.map_nil, List.singleton_append, hrecord,
      StatusEntry.step]
    rw [readRecords]
    simp [codes_oid, codes_head, codes_header, codes_ordinary, codes_renamed, codes_unmerged,
      codes_untracked]

/-- Records are read entry by entry. -/
theorem readRecords_records (entries : List StatusEntry) (s : StatusState) :
    readRecords ((entries.flatMap StatusEntry.recordsOf).map decodeEscape) s =
      entries.foldlM StatusEntry.step s := by
  induction entries generalizing s with
  | nil => rfl
  | cons e entries ih =>
    rw [List.flatMap_cons, List.map_append, readRecords_entry, List.foldlM_cons]
    exact congrArg (e.step s).bind (funext ih)

/-- What reading an entry notes. -/
structure Notes (e : StatusEntry) (s t : StatusState) : Prop where
  head : t.head.toList = s.head.toList ++ e.oid?.toList.map fun n => decodeEscape n.bytes
  branch : t.branch.toList = s.branch.toList ++ e.head?.toList.map fun n => decodeEscape n.bytes
  paths : ∀ p, p ∈ t.paths ↔ p ∈ s.paths ∨ ∃ q ∈ e.paths, decodeEscape q.bytes = p

/-- An entry that does not name a commit or a branch again is read. -/
theorem step_notes {e : StatusEntry} (hoid : s.head.toList.length + e.oid?.toList.length ≤ 1)
    (hhead : s.branch.toList.length + e.head?.toList.length ≤ 1) :
    ∃ t, e.step s = some t ∧ Notes e s t := by
  cases e with
  | oid commit =>
    cases hs : s.head with
    | none => exact ⟨_, by rw [StatusEntry.step, hs]; rfl, by simp [StatusEntry.oid?, hs],
        by simp [StatusEntry.head?], by simp [StatusEntry.paths]⟩
    | some head => simp [hs, StatusEntry.oid?] at hoid
  | head branch =>
    cases hs : s.branch with
    | none => exact ⟨_, by rw [StatusEntry.step, hs]; rfl, by simp [StatusEntry.oid?],
        by simp [StatusEntry.head?, hs], by simp [StatusEntry.paths]⟩
    | some head => simp [hs, StatusEntry.head?] at hhead
  | header text other =>
    exact ⟨s, rfl, by simp [StatusEntry.oid?], by simp [StatusEntry.head?],
      by simp [StatusEntry.paths]⟩
  | ordinary fields path =>
    exact ⟨_, rfl, by simp [StatusEntry.oid?, StatusState.add],
      by simp [StatusEntry.head?, StatusState.add],
      by simp [StatusEntry.paths, StatusState.add, or_comm, eq_comm]⟩
  | renamed fields path original =>
    exact ⟨_, rfl, by simp [StatusEntry.oid?, StatusState.add],
      by simp [StatusEntry.head?, StatusState.add],
      by simp [StatusEntry.paths, StatusState.add, or_comm, or_assoc, eq_comm]⟩
  | unmerged fields path =>
    exact ⟨_, rfl, by simp [StatusEntry.oid?, StatusState.add],
      by simp [StatusEntry.head?, StatusState.add],
      by simp [StatusEntry.paths, StatusState.add, or_comm, eq_comm]⟩
  | untracked path =>
    exact ⟨_, rfl, by simp [StatusEntry.oid?, StatusState.add],
      by simp [StatusEntry.head?, StatusState.add],
      by simp [StatusEntry.paths, StatusState.add, or_comm, eq_comm]⟩

theorem filterMap_cons_toList {α β : Type} (f : α → Option β) (x : α) (l : List α) :
    (x :: l).filterMap f = (f x).toList ++ l.filterMap f := by
  cases h : f x <;> simp [h]

/-- What was read of a document that names at most one commit and one branch. -/
theorem foldlM_step {entries : List StatusEntry}
    (hoid : s.head.toList.length + (entries.filterMap StatusEntry.oid?).length ≤ 1)
    (hhead : s.branch.toList.length + (entries.filterMap StatusEntry.head?).length ≤ 1) :
    ∃ t, entries.foldlM StatusEntry.step s = some t ∧
      t.head.toList = s.head.toList ++
        (entries.filterMap StatusEntry.oid?).map (fun n => decodeEscape n.bytes) ∧
      t.branch.toList = s.branch.toList ++
        (entries.filterMap StatusEntry.head?).map (fun n => decodeEscape n.bytes) ∧
      ∀ p, p ∈ t.paths ↔ p ∈ s.paths ∨
        ∃ e ∈ entries, ∃ q ∈ e.paths, decodeEscape q.bytes = p := by
  induction entries generalizing s with
  | nil => exact ⟨s, rfl, by simp, by simp, by simp⟩
  | cons e entries ih =>
    rw [filterMap_cons_toList, List.length_append] at hoid hhead
    obtain ⟨u, hu, hnotes⟩ := @step_notes s e (by omega) (by omega)
    have huhead : u.head.toList.length = s.head.toList.length + e.oid?.toList.length := by
      rw [hnotes.head, List.length_append, List.length_map]
    have hubranch : u.branch.toList.length = s.branch.toList.length + e.head?.toList.length := by
      rw [hnotes.branch, List.length_append, List.length_map]
    obtain ⟨t, ht, hthead, htbranch, htpaths⟩ := ih (s := u) (by omega) (by omega)
    refine ⟨t, ?_, ?_, ?_, fun p => ?_⟩
    · rw [List.foldlM_cons, hu]
      exact ht
    · rw [hthead, hnotes.head, filterMap_cons_toList, List.map_append, List.append_assoc]
    · rw [htbranch, hnotes.branch, filterMap_cons_toList, List.map_append, List.append_assoc]
    · rw [htpaths, hnotes.paths, or_assoc]
      simp only [List.mem_cons, exists_eq_or_imp]

/-! ## Documents -/

/-- The bytes of a document. -/
def documentBytes (entries : List StatusEntry) : List UInt8 :=
  (entries.flatMap StatusEntry.recordsOf).flatMap fun record => record ++ [0]

/-- A document as git prints it: one commit, one branch, and entries in any order. Before the
first commit its place is taken by a word. -/
structure StatusDocument where
  entries : List StatusEntry
  commit : Name
  branch : Name
  oid : entries.filterMap StatusEntry.oid? = [commit]
  head : entries.filterMap StatusEntry.head? = [branch]
  named : branch.bytes ≠ []
  committed : isCommit (decodeEscape commit.bytes) ∨ commit.bytes = ascii "(initial)"

/-- The bytes of a document. -/
def StatusDocument.bytes (d : StatusDocument) : List UInt8 := documentBytes d.entries

theorem notMem_ascii_append {text : String} (h : (0 : UInt8) ∉ ascii text) {bytes : List UInt8}
    (hbytes : 0 ∉ bytes) : 0 ∉ ascii text ++ bytes :=
  fun hmem => (List.mem_append.mp hmem).elim h hbytes

theorem notMem_before {n : Nat} (fields : Fields n) (path : StatusPath) :
    0 ∉ fields.before path := by
  unfold Fields.before
  induction fields.1 with
  | nil => exact path.plain
  | cons field rest ih =>
    have hspaced : spaced (0x20 : UInt8) ((field :: rest).map Field.bytes) path.bytes =
        field.bytes ++ 0x20 :: spaced 0x20 (rest.map Field.bytes) path.bytes := rfl
    rw [hspaced, List.mem_append, List.mem_cons]
    rintro (h | h | h)
    · exact field.plain.1 h
    · cases h
    · exact ih h

/-- No record holds a NUL. -/
theorem notMem_recordsOf (e : StatusEntry) : ∀ record ∈ e.recordsOf, 0 ∉ record := by
  cases e with
  | oid commit => simpa [StatusEntry.recordsOf] using notMem_ascii_append (by decide) commit.plain
  | head branch => simpa [StatusEntry.recordsOf] using notMem_ascii_append (by decide) branch.plain
  | header text other =>
    simpa [StatusEntry.recordsOf] using notMem_ascii_append (by decide) text.plain
  | ordinary fields path =>
    simpa [StatusEntry.recordsOf] using notMem_ascii_append (by decide) (notMem_before fields path)
  | renamed fields path original =>
    have hmark : (0 : UInt8) ∉ ascii "2 " := by decide
    simpa [StatusEntry.recordsOf] using
      ⟨⟨hmark, notMem_before fields path⟩, original.plain⟩
  | unmerged fields path =>
    simpa [StatusEntry.recordsOf] using notMem_ascii_append (by decide) (notMem_before fields path)
  | untracked path => simpa [StatusEntry.recordsOf] using notMem_ascii_append (by decide) path.plain

/-- The records of a document are those of its entries. -/
theorem records_flatMap {rs : List (List UInt8)} (h : ∀ record ∈ rs, 0 ∉ record) :
    records (rs.flatMap fun record => record ++ [0]) = rs.map decodeEscape := by
  unfold records
  induction rs with
  | nil => rw [List.flatMap_nil, decodeEscape_nil]; rfl
  | cons record rs ih =>
    have hrecord : 0 ∉ decodeEscape record := by
      intro hmem
      have hmem : (0 : UInt8).toNat ∈ decodeEscape record := hmem
      exact h record List.mem_cons_self (mem_of_mem_decodeEscape (by decide) hmem)
    have hbytes : ((record :: rs).flatMap fun record => record ++ [0]) =
        record ++ 0 :: rs.flatMap fun record => record ++ [0] := by
      simp
    rw [hbytes, decodeEscape_append (by decide), Utf8.decodeEscape_ascii (by decide)]
    have hsplit : split 0 (decodeEscape record ++ (0 : UInt8).toNat ::
        decodeEscape (rs.flatMap fun record => record ++ [0])) =
          decodeEscape record :: split 0 (decodeEscape (rs.flatMap fun record => record ++ [0])) :=
      split_append hrecord _
    rw [hsplit, List.dropLast_cons_of_ne_nil (split_ne_nil _),
      ih fun r hr => h r (List.mem_cons_of_mem record hr), List.map_cons]

theorem getLast?_flatMap {rs : List (List UInt8)} (hne : rs ≠ []) :
    (rs.flatMap fun record => record ++ [0]).getLast? = some 0 := by
  obtain ⟨front, record, rfl⟩ := List.eq_nil_or_concat rs |>.resolve_left hne
  simp

/-- What a document lists, as it is read. -/
structure ReadAs (d : StatusDocument) (s : GitStatus) : Prop where
  head : s.head = decodeEscape d.commit.bytes
  branch : s.branch =
    if d.branch.bytes = ascii "(detached)" then none else some (decodeEscape d.branch.bytes)
  sorted : s.changedPaths.Pairwise (· < ·)
  paths : ∀ p, p ∈ s.changedPaths ↔
    ∃ e ∈ d.entries, ∃ q ∈ e.paths, decodeEscape q.bytes = p

theorem decodeEscape_eq_codes (text : String) (h : isAscii text)
    {bytes : List UInt8} : decodeEscape bytes = codes text ↔ bytes = ascii text := by
  have hascii : decodeEscape (ascii text) = codes text := by
    have := decodeEscape_ascii_append text h []
    rwa [List.append_nil, decodeEscape_nil, List.append_nil] at this
  rw [← hascii]
  exact decodeEscape_injective.eq_iff

theorem toList_eq_singleton {α : Type} {x : Option α} {a : α} (h : x.toList = [a]) :
    x = some a := by
  cases x with
  | none => cases h
  | some b =>
    cases h
    rfl

/-- A document is read as it lists things if it names a commit, and refused before the first
commit. -/
theorem status_document (d : StatusDocument) :
    (isCommit (decodeEscape d.commit.bytes) → ∃ s, status d.bytes = .ok s ∧ ReadAs d s) ∧
    (d.commit.bytes = ascii "(initial)" →
      ∃ message, status d.bytes = .error (.runtime message)) := by
  have hne : d.entries.flatMap StatusEntry.recordsOf ≠ [] := by
    intro hnil
    have hentries : ∀ e ∈ d.entries, e.recordsOf = [] := List.flatMap_eq_nil_iff.mp hnil
    have hoid := d.oid
    cases hd : d.entries with
    | nil =>
      rw [hd] at hoid
      cases hoid
    | cons e rest =>
      have := hentries e (hd ▸ List.mem_cons_self)
      cases e <;> cases this
  have hplain : ∀ record ∈ d.entries.flatMap StatusEntry.recordsOf, 0 ∉ record := by
    intro record hrecord
    obtain ⟨e, -, he⟩ := List.mem_flatMap.mp hrecord
    exact notMem_recordsOf e record he
  have hlast : d.bytes.getLast? = some 0 := getLast?_flatMap hne
  have hrecords : records d.bytes = (d.entries.flatMap StatusEntry.recordsOf).map decodeEscape :=
    records_flatMap hplain
  obtain ⟨t, ht, hhead, hbranch, hpaths⟩ := @foldlM_step {} d.entries
    (by rw [d.oid]; exact le_rfl) (by rw [d.head]; exact le_rfl)
  rw [d.oid] at hhead
  rw [d.head] at hbranch
  have hhead : t.head = some (decodeEscape d.commit.bytes) := toList_eq_singleton hhead
  have hbranch : t.branch = some (decodeEscape d.branch.bytes) := toList_eq_singleton hbranch
  have hstatus : status d.bytes = t.status := by
    unfold status
    rw [if_neg (by simp [hlast]), hrecords, readRecords_records, ht]
  have hnamed : decodeEscape d.branch.bytes ≠ [] := by
    intro hnil
    have := encodeEscape_decodeEscape d.branch.bytes
    rw [hnil] at this
    exact d.named this.symm
  have hnonempty : t.paths.any List.isEmpty = false := by
    rw [List.any_eq_false]
    intro p hp hempty
    have hempty : p = [] := by simpa using hempty
    rcases (hpaths p).mp hp with hp | ⟨e, -, q, -, hq⟩
    · cases hp
    · exact decodeEscape_ne_nil q (hq.trans hempty)
  constructor
  · intro hcommit
    have hok : ¬ (¬ isCommit (decodeEscape d.commit.bytes) ∨ decodeEscape d.branch.bytes = [] ∨
        t.paths.any List.isEmpty) := by
      simp [hcommit, hnamed, hnonempty]
    rw [hstatus, StatusState.status, hhead, hbranch]
    simp only [if_neg hok]
    refine ⟨_, rfl, rfl, ?_, ?_, fun p => ?_⟩
    · simp only [decodeEscape_eq_codes "(detached)" (by decide)]
    · have hnodup : (t.paths.dedup.insertionSort (· ≤ ·)).Nodup :=
        (List.perm_insertionSort _ _).nodup_iff.mpr (List.nodup_dedup _)
      exact ((List.pairwise_insertionSort (· ≤ ·) t.paths.dedup).and hnodup).imp
        fun h => lt_of_le_of_ne h.1 h.2
    · rw [List.mem_insertionSort, List.mem_dedup, hpaths]
      simp
  · intro hinitial
    have hcommit : isCommit (decodeEscape d.commit.bytes) = false := by
      rw [(decodeEscape_eq_codes "(initial)" (by decide)).mpr hinitial]
      decide
    rw [hstatus, StatusState.status, hhead, hbranch]
    simp only [hcommit, Bool.false_eq_true, not_false_eq_true, true_or, if_true]
    exact ⟨_, rfl⟩

/-! ## What is refused -/

/-- Records as entries, whether or not these are whole: a renamed file takes two. -/
def entriesOf : List Codes → List (List Codes)
  | [] => []
  | record :: rest =>
    if (codes "2 ").isPrefixOf record then
      match rest with
      | [] => [[record]]
      | original :: rest => [record, original] :: entriesOf rest
    else [record] :: entriesOf rest

/-- Whether an entry has too few fields. -/
def tooFew (record : Codes) : Bool :=
  ((codes "1 ").isPrefixOf record && record.count space < 8) ||
    ((codes "2 ").isPrefixOf record && record.count space < 9) ||
      ((codes "u ").isPrefixOf record && record.count space < 10)

/-- Whether an entry is whole. -/
def whole : List Codes → Bool
  | [record] => ¬ tooFew record && ¬ (codes "2 ").isPrefixOf record
  | record :: _ => ¬ tooFew record
  | [] => false

/-- Whether an entry begins in some way. -/
def beginsWith (text : String) (entry : List Codes) : Bool :=
  entry.head?.any fun record => (codes text).isPrefixOf record

/-- What was read has whole entries only, and each of commit and branch at most once. -/
structure WholeTo (recs : List Codes) (s t : StatusState) : Prop where
  whole : ∀ entry ∈ entriesOf recs, whole entry
  oid : (entriesOf recs).countP (beginsWith "# branch.oid ") + s.head.toList.length =
    t.head.toList.length
  head : (entriesOf recs).countP (beginsWith "# branch.head ") + s.branch.toList.length =
    t.branch.toList.length

theorem isPrefixOf_iff {x : Codes} : x.isPrefixOf record ↔ ∃ last, x ++ last = record := by
  simp [List.IsPrefix]

/-- A record begins in one way only. -/
theorem not_isPrefixOf {x y : Codes} (hx : x.isPrefixOf record) (hx0 : x ≠ []) (hy0 : y ≠ [])
    (hne : x.head? ≠ y.head?) : ¬ y.isPrefixOf record := by
  intro hy
  obtain ⟨b, rfl⟩ := isPrefixOf_iff.mp hy
  obtain ⟨a, ha⟩ := isPrefixOf_iff.mp hx
  apply hne
  rw [← List.head?_append_of_ne_nil x hx0, ha, List.head?_append_of_ne_nil y hy0]

theorem countP_beginsWith (text : String) (record : Codes) (more : List Codes)
    (entries : List (List Codes)) :
    ((record :: more) :: entries).countP (beginsWith text) =
      entries.countP (beginsWith text) + ((codes text).isPrefixOf record).toNat := by
  rw [List.countP_cons]
  cases h : (codes text).isPrefixOf record <;> simp [beginsWith, h]

/-- A record that is an entry, and what follows it. -/
theorem WholeTo.cons {u : StatusState} (hkind : ¬ (codes "2 ").isPrefixOf record)
    (hfew : ¬ tooFew record) (hrest : WholeTo rest u t)
    (hoid : u.head.toList.length =
      s.head.toList.length + ((codes "# branch.oid ").isPrefixOf record).toNat)
    (hhead : u.branch.toList.length =
      s.branch.toList.length + ((codes "# branch.head ").isPrefixOf record).toNat) :
    WholeTo (record :: rest) s t := by
  have hentries : entriesOf (record :: rest) = [record] :: entriesOf rest := by
    rw [entriesOf.eq_def]
    simp only [if_neg hkind]
  constructor
  · rw [hentries]
    rintro entry (_ | ⟨_, hentry⟩)
    · simp [LocalGitService.whole, hfew, hkind]
    · exact hrest.whole entry hentry
  · have := hrest.oid
    rw [hentries, countP_beginsWith]
    omega
  · have := hrest.head
    rw [hentries, countP_beginsWith]
    omega

/-- A renamed entry with its original, and what follows it. -/
theorem WholeTo.renamed {u : StatusState} {original : Codes}
    (hkind : (codes "2 ").isPrefixOf record) (hfew : ¬ tooFew record) (hrest : WholeTo rest u t)
    (hoid : u.head = s.head) (hhead : u.branch = s.branch) :
    WholeTo (record :: original :: rest) s t := by
  have hentries :
      entriesOf (record :: original :: rest) = [record, original] :: entriesOf rest := by
    rw [entriesOf, if_pos hkind]
  have hnot (text : String) (h0 : codes text ≠ []) (hne : (codes "2 ").head? ≠ (codes text).head?) :
      (codes text).isPrefixOf record = false :=
    eq_false_of_ne_true (not_isPrefixOf hkind (by decide) h0 hne)
  constructor
  · rw [hentries]
    rintro entry (_ | ⟨_, hentry⟩)
    · simp [LocalGitService.whole, hfew]
    · exact hrest.whole entry hentry
  · have := hrest.oid
    rw [hentries, countP_beginsWith, hnot "# branch.oid " (by decide) (by decide), ← hoid]
    exact this
  · have := hrest.head
    rw [hentries, countP_beginsWith, hnot "# branch.head " (by decide) (by decide), ← hhead]
    exact this

theorem le_count_of_splitMax {s : Codes} (h : (splitMax sep n s)[n]? = some path) :
    n ≤ s.count sep := by
  by_contra hlt
  rw [splitMax_short (by omega)] at h
  cases h

theorem readRecords_whole {recs : List Codes} (h : readRecords recs s = some t) :
    WholeTo recs s t := by
  -- a header is no entry with fields
  have hheader {record : Codes} (hh : (codes "# ").isPrefixOf record) :
      ¬ (codes "2 ").isPrefixOf record ∧ ¬ tooFew record := by
    have h1 := not_isPrefixOf hh (by decide) (y := codes "1 ") (by decide) (by decide)
    have h2 := not_isPrefixOf hh (by decide) (y := codes "2 ") (by decide) (by decide)
    have hu := not_isPrefixOf hh (by decide) (y := codes "u ") (by decide) (by decide)
    exact ⟨h2, by simp [tooFew, h1, h2, hu]⟩
  have hmark {record : Codes} {text : String} (hh : (codes text).isPrefixOf record)
      (hm : codes "# " <+: codes text) : (codes "# ").isPrefixOf record :=
    isPrefixOf_iff.mpr (hm.trans (isPrefixOf_iff.mp hh))
  -- an entry that is no header names no commit and no branch
  have hplain {record : Codes} (hh : ¬ (codes "# ").isPrefixOf record) :
      ¬ (codes "# branch.oid ").isPrefixOf record ∧ ¬ (codes "# branch.head ").isPrefixOf record :=
    ⟨fun hoid => hh (hmark hoid (by decide)), fun hhead => hh (hmark hhead (by decide))⟩
  fun_induction readRecords recs s with
  | case1 s =>
    cases h
    exact ⟨by simp [entriesOf], by simp [entriesOf], by simp [entriesOf]⟩
  | case4 record rest s hne hoid hs ih =>
    have hhash := hheader (hmark hoid (by decide))
    have hbranch : ¬ (codes "# branch.head ").isPrefixOf record := by
      obtain ⟨last, rfl⟩ := isPrefixOf_iff.mp hoid
      simp [codes_oid, codes_head]
    have hs : s.head = none := by simpa using hs
    exact (ih h).cons hhash.1 hhash.2 (by simp [hoid, hs]) (by simp [hbranch])
  | case6 record rest s hne hoid hhead hs ih =>
    have hhash := hheader (hmark hhead (by decide))
    have hs : s.branch = none := by simpa using hs
    exact (ih h).cons hhash.1 hhash.2 (by simp [hoid]) (by simp [hhead, hs])
  | case7 record rest s hne hoid hhead hhash ih =>
    exact (ih h).cons (hheader hhash).1 (hheader hhash).2 (by simp [hoid]) (by simp [hhead])
  | case9 record rest s hne hoid hhead hhash hone path hpath ih =>
    have h2 := not_isPrefixOf hone (by decide) (y := codes "2 ") (by decide) (by decide)
    have hu := not_isPrefixOf hone (by decide) (y := codes "u ") (by decide) (by decide)
    have := le_count_of_splitMax hpath
    exact (ih h).cons h2 (by simp [tooFew, h2, hu]; omega) (by simp [hoid, StatusState.add])
      (by simp [hhead, StatusState.add])
  | case13 record s hne hoid hhead hhash hone htwo original rest path horiginal hpath ih =>
    have hu := not_isPrefixOf htwo (by decide) (y := codes "u ") (by decide) (by decide)
    have := le_count_of_splitMax hpath
    exact (ih h).renamed htwo (by simp [tooFew, hone, hu]; omega) rfl rfl
  | case15 record rest s hne hoid hhead hhash hone htwo hu path hpath ih =>
    have := le_count_of_splitMax hpath
    exact (ih h).cons htwo (by simp [tooFew, hone, htwo]; omega) (by simp [hoid, StatusState.add])
      (by simp [hhead, StatusState.add])
  | case16 record rest s hne hoid hhead hhash hone htwo hu huntracked ih =>
    exact (ih h).cons htwo (by simp [tooFew, hone, htwo, hu]) (by simp [hoid, StatusState.add])
      (by simp [hhead, StatusState.add])
  | _ => cases h

/-- A document that is cut off: in a record, in a renamed entry, or in an entry's fields; or one
that does not name one commit and one branch. -/
def Faulty (raw : List UInt8) : Prop :=
  raw.getLast? ≠ some 0 ∨ (∃ entry ∈ entriesOf (records raw), ¬ whole entry) ∨
    (entriesOf (records raw)).countP (beginsWith "# branch.oid ") ≠ 1 ∨
      (entriesOf (records raw)).countP (beginsWith "# branch.head ") ≠ 1

/-- Such a document is refused. -/
theorem status_faulty {raw : List UInt8} (h : Faulty raw) :
    ∃ message, status raw = .error (.runtime message) := by
  unfold status
  split_ifs with hend
  · exact ⟨_, rfl⟩
  cases hread : readRecords (records raw) {} with
  | none => exact ⟨_, rfl⟩
  | some t =>
    have hwhole := readRecords_whole hread
    have hoid : (entriesOf (records raw)).countP (beginsWith "# branch.oid ") =
        t.head.toList.length := hwhole.oid
    have hbranch : (entriesOf (records raw)).countP (beginsWith "# branch.head ") =
        t.branch.toList.length := hwhole.head
    have hmissing : t.head = none ∨ t.branch = none := by
      rcases h with h | ⟨entry, hentry, hpart⟩ | h | h
      · exact absurd h hend
      · exact absurd (hwhole.whole entry hentry) hpart
      · left
        cases ht : t.head with
        | none => rfl
        | some head => exact absurd (by rw [hoid, ht]; rfl) h
      · right
        cases ht : t.branch with
        | none => rfl
        | some branch => exact absurd (by rw [hbranch, ht]; rfl) h
    show ∃ message, t.status = .error (.runtime message)
    unfold StatusState.status
    rcases hmissing with ht | ht
    · rw [ht]
      exact ⟨_, rfl⟩
    · rw [ht]
      cases t.head <;> exact ⟨_, rfl⟩

/-- A document is read as it lists things, with paths kept apart as their bytes are, and refused
before the first commit; and a faulty document is refused. -/
theorem status_exact :
    (∀ d : StatusDocument,
      (isCommit (decodeEscape d.commit.bytes) → ∃ s, status d.bytes = .ok s ∧ ReadAs d s) ∧
      (d.commit.bytes = ascii "(initial)" →
        ∃ message, status d.bytes = .error (.runtime message))) ∧
    (∀ raw, Faulty raw → ∃ message, status raw = .error (.runtime message)) ∧
    Function.Injective decodeEscape :=
  ⟨status_document, fun _ => status_faulty, decodeEscape_injective⟩

/-- A branch. -/
def mainBranch : Name := ⟨ascii "main", by decide⟩

/-- A file named like an entry, renamed to a path with a space. -/
def lookalike : StatusEntry :=
  .renamed ⟨List.replicate 8 ⟨ascii "R.", by decide⟩, by decide⟩
    ⟨⟨ascii "a b", by decide⟩, by decide⟩ ⟨⟨ascii "? a", by decide⟩, by decide⟩

/-- Such a file after a commit. -/
def lookalikeDocument : StatusDocument where
  entries :=
    [.oid ⟨ascii (String.ofList (List.replicate 40 'a')), by decide⟩, .head mainBranch, lookalike]
  commit := ⟨ascii (String.ofList (List.replicate 40 'a')), by decide⟩
  branch := mainBranch
  oid := rfl
  head := rfl
  named := by decide
  committed := by
    left
    rw [(decodeEscape_eq_codes (String.ofList (List.replicate 40 'a')) (by decide)).mpr rfl]
    decide

theorem lookalike_read :
    ∃ s, status lookalikeDocument.bytes = .ok s ∧ ReadAs lookalikeDocument s :=
  (status_exact.1 lookalikeDocument).1 <| by
    rw [lookalikeDocument,
      (decodeEscape_eq_codes (String.ofList (List.replicate 40 'a')) (by decide)).mpr rfl]
    decide

/-- A branch without a commit. -/
def unborn : StatusDocument where
  entries := [.oid ⟨ascii "(initial)", by decide⟩, .head mainBranch]
  commit := ⟨ascii "(initial)", by decide⟩
  branch := mainBranch
  oid := rfl
  head := rfl
  named := by decide
  committed := .inr rfl

/-- It is well formed, and not read. -/
theorem unborn_refused : ¬ ∃ s, status unborn.bytes = .ok s ∧ ReadAs unborn s := by
  obtain ⟨message, hrefused⟩ := (status_document unborn).2 rfl
  rintro ⟨s, hs, -⟩
  rw [hrefused] at hs
  cases hs

end LocalGitService

end Orqalis
