import Orqalis.Delivery.Guardian
import Orqalis.Lib.Json

/-!
# The digest of a workspace, byte by byte

What the digest of a workspace hashes: the base commit and, for every path that `git status`
lists as changed, the path, a zero byte and either the hash of the content or the word for a
deleted file. No path has a zero byte, but the hash and the word are not told apart by their
length: a hash that begins with that word can take up the entries that follow a deletion
(`Clash`). That is the only way in which two trees get one digest (`digest_identifies_iff`).
-/

namespace Orqalis

namespace TreeDigest

open Lib.Outcome Lib.Json

/-! ## The status of Git -/

/-- The text up to each zero byte, and what is left. -/
def splitNul : List Char → List (List Char)
  | [] => [[]]
  | c :: text =>
    if c = '\x00' then [] :: splitNul text
    else
      match splitNul text with
      | [] => [[c]]
      | record :: records => (c :: record) :: records

/-- What stands after a number of spaces. -/
def afterSpaces : Nat → List Char → Option (List Char)
  | 0, text => some text
  | _ + 1, [] => none
  | n + 1, c :: text => if c = ' ' then afterSpaces n text else afterSpaces (n + 1) text

/-- What stands after a beginning. -/
def removeStart (start text : List Char) : Option (List Char) :=
  if start.isPrefixOf text then some (text.drop start.length) else none

def oidMark : List Char := ['#', ' ', 'b', 'r', 'a', 'n', 'c', 'h', '.', 'o', 'i', 'd', ' ']

def headMark : List Char :=
  ['#', ' ', 'b', 'r', 'a', 'n', 'c', 'h', '.', 'h', 'e', 'a', 'd', ' ']

/-- What the records say. -/
structure StatusRecords where
  head : Option (List Char) := none
  branch : Option (List Char) := none
  paths : List (List Char) := []

/-- What one record is about. -/
inductive StatusRecord
  | head (text : List Char)
  | branch (text : List Char)
  | comment
  | changed (path : List Char)
  | renamed (path : List Char)
  | invalid

/-- The path a record is about. -/
def StatusRecord.path? : StatusRecord → Option (List Char)
  | changed path | renamed path => some path
  | _ => none

/-- A path, where there is one. -/
def pathRecord (record : List Char → StatusRecord) (path : Option (List Char)) : StatusRecord :=
  (path.map record).getD .invalid

/-- Read one record. -/
def readRecord (record : List Char) : StatusRecord :=
  match removeStart oidMark record, removeStart headMark record with
  | some head, _ => .head head
  | none, some branch => .branch branch
  | none, none =>
    match record with
    | '#' :: ' ' :: _ => .comment
    | '1' :: ' ' :: _ => pathRecord .changed (afterSpaces 8 record)
    | '2' :: ' ' :: _ => pathRecord .renamed (afterSpaces 9 record)
    | 'u' :: ' ' :: _ => pathRecord .changed (afterSpaces 10 record)
    | '?' :: ' ' :: path => .changed path
    | _ => .invalid

/-- Read the records of a status, the original path of a renamed file from the next one. -/
def readRecords : List (List Char) → StatusRecords → Option StatusRecords
  | [], s => some s
  | record :: rest, s =>
    match readRecord record with
    | .head head => if s.head = none then readRecords rest { s with head := some head } else none
    | .branch branch =>
      if s.branch = none then readRecords rest { s with branch := some branch } else none
    | .comment => readRecords rest s
    | .changed path => readRecords rest { s with paths := path :: s.paths }
    | .renamed path =>
      match rest with
      | [] => none
      | original :: rest =>
        if original = [] then none
        else readRecords rest { s with paths := original :: path :: s.paths }
    | .invalid => none

structure GitStatus where
  branch : Option (List Char)
  head : List Char
  changedPaths : List (List Char)
deriving DecidableEq

/-- Whether a text is the name of a commit. -/
def commitName (head : List Char) : Bool :=
  (head.length = 40 ∨ head.length = 64) ∧
    head.all fun c => ('0' ≤ c ∧ c ≤ '9') ∨ ('a' ≤ c ∧ c ≤ 'f')

/-- Read what `git status` printed. -/
def gitStatus (raw : List Char) : Except Error GitStatus :=
  if raw.getLast? ≠ some '\x00' then
    .error (.runtime "Git returned an unterminated status document")
  else
    match readRecords (splitNul raw).dropLast {} with
    | none => .error (.runtime "Git returned an invalid status document")
    | some { head := some head, branch := some branch, paths } =>
      if commitName head = false ∨ branch = [] ∨ paths.any List.isEmpty then
        .error (.runtime "Git status requires a committed HEAD and branch metadata")
      else
        .ok {
          branch := if branch = ['(', 'd', 'e', 't', 'a', 'c', 'h', 'e', 'd', ')'] then none
            else some branch
          head
          changedPaths := paths.dedup.insertionSort (· ≤ ·) }
    | some _ => .error (.runtime "Git status requires a committed HEAD and branch metadata")

/-! ## The digest -/

/-- A workspace: whether it is still the one of its run, what `git status` prints there, which
paths may be used and what lies at them. -/
structure Worktree where
  verified : Except Error Unit
  status : List Char
  target : List Char → Except Error Unit
  node : List Char → Option Node

/-- A text in UTF-8. -/
def encode (text : List Char) : Bytes := text.flatMap String.utf8EncodeChar

/-- Bytes in hexadecimal digits. -/
def hexdigest (bytes : Bytes) : List Char :=
  bytes.flatMap fun b => [hexDigit (b.toNat / 16), hexDigit (b.toNat % 16)]

/-- The bytes `deleted`. -/
def deletedMark : Bytes := [100, 101, 108, 101, 116, 101, 100]

/-- A changed path with the content of its file, unless it is deleted. -/
def readEntry (w : Worktree) (path : List Char) : Except Error (List Char × Option Bytes) := do
  w.target path
  match w.node path with
  | none => pure (path, none)
  | some (.regular bytes _) =>
    if maxDeliveredBytes < bytes.length then
      .error (.policyDenied "Changed artifact exceeds review limits")
    else pure (path, some bytes)
  | some _ => .error (.policyDenied "Changed artifact exceeds review limits")

/-- What is hashed of a changed path. -/
def entryBytes (sha256 : Bytes → Bytes) : List Char × Option Bytes → Bytes
  | (path, some content) => encode path ++ 0 :: sha256 content
  | (path, none) => encode path ++ 0 :: deletedMark

/-- What is hashed of all of them. -/
def treeBytes (sha256 : Bytes → Bytes) (entries : List (List Char × Option Bytes)) : Bytes :=
  entries.flatMap (entryBytes sha256)

/-- The digest of a workspace. -/
def workspaceDigest (sha256 : Bytes → Bytes) (baseCommit : List Char) (w : Worktree) :
    Except Error (List Char) := do
  w.verified
  let status ← gitStatus w.status
  let entries ← status.changedPaths.mapM (readEntry w)
  pure (hexdigest (sha256 (encode baseCommit ++ treeBytes sha256 entries)))

/-! ## Paths have no zero byte -/

theorem notMem_splitNul (text : List Char) : ∀ record ∈ splitNul text, '\x00' ∉ record := by
  induction text with
  | nil => simp [splitNul]
  | cons c text ih =>
    unfold splitNul
    split_ifs with hc
    · rintro record hrecord
      rcases List.mem_cons.mp hrecord with rfl | hrecord
      · exact List.not_mem_nil
      · exact ih record hrecord
    · have hne : ¬ '\x00' = c := Ne.symm hc
      cases hsplit : splitNul text with
      | nil => simpa using hne
      | cons first rest =>
        rw [hsplit] at ih
        rintro record hrecord
        rcases List.mem_cons.mp hrecord with rfl | hrecord
        · exact List.not_mem_cons_of_ne_of_not_mem hne (ih first List.mem_cons_self)
        · exact ih record (List.mem_cons_of_mem _ hrecord)

theorem afterSpaces_suffix {n : Nat} {text path : List Char} (h : afterSpaces n text = some path) :
    path <:+ text := by
  induction text generalizing n with
  | nil =>
    cases n with
    | zero =>
      cases h
      exact List.suffix_rfl
    | succ n => cases h
  | cons c text ih =>
    cases n with
    | zero =>
      cases h
      exact List.suffix_rfl
    | succ n =>
      unfold afterSpaces at h
      split_ifs at h
      · exact (ih h).trans (List.suffix_cons c text)
      · exact (ih h).trans (List.suffix_cons c text)

theorem path?_pathRecord {record : List Char → StatusRecord}
    (hrecord : ∀ path, (record path).path? = some path) (path : Option (List Char)) :
    (pathRecord record path).path? = path := by
  cases path with
  | none => rfl
  | some path => exact hrecord path

/-- The path of a record is a part of it. -/
theorem readRecord_subset {record path : List Char} (h : (readRecord record).path? = some path) :
    path ⊆ record := by
  unfold readRecord at h
  split at h
  · cases h
  · cases h
  · split at h
    · cases h
    · rw [path?_pathRecord fun _ => rfl] at h
      exact (afterSpaces_suffix h).subset
    · rw [path?_pathRecord fun _ => rfl] at h
      exact (afterSpaces_suffix h).subset
    · rw [path?_pathRecord fun _ => rfl] at h
      exact (afterSpaces_suffix h).subset
    · cases h
      exact List.subset_cons_of_subset _ (List.subset_cons_self _ _)
    · cases h

/-- What is read of records without a zero byte are paths without one. -/
theorem notMem_readRecords {records : List (List Char)} {s r : StatusRecords}
    (hrecords : ∀ record ∈ records, '\x00' ∉ record) (hs : ∀ path ∈ s.paths, '\x00' ∉ path)
    (h : readRecords records s = some r) : ∀ path ∈ r.paths, '\x00' ∉ path := by
  have hpath : ∀ record ∈ records, ∀ path, (readRecord record).path? = some path →
      '\x00' ∉ path := fun record hrecord path hpath hmem =>
    hrecords record hrecord (readRecord_subset hpath hmem)
  fun_induction readRecords records s with
  | case1 s =>
    cases h
    exact hs
  | case3 | case5 | case8 | case9 | case11 => cases h
  | case2 s record rest head hread hnew ih | case4 s record rest branch hread hnew ih
  | case6 s record rest hread ih =>
    exact ih (fun r hr => hrecords r (List.mem_cons_of_mem _ hr)) hs h
      fun r hr => hpath r (List.mem_cons_of_mem _ hr)
  | case7 record rest s path hread ih =>
    refine ih (fun r hr => hrecords r (List.mem_cons_of_mem _ hr)) (fun p hp => ?_) h
      fun r hr => hpath r (List.mem_cons_of_mem _ hr)
    rcases List.mem_cons.mp hp with rfl | hp
    · exact hpath record List.mem_cons_self p (by rw [hread]; rfl)
    · exact hs p hp
  | case10 record s path hread original rest hne ih =>
    have hmem : ∀ r ∈ rest, r ∈ record :: original :: rest := fun r hr =>
      List.mem_cons_of_mem _ (List.mem_cons_of_mem _ hr)
    refine ih (fun r hr => hrecords r (hmem r hr)) (fun p hp => ?_) h
      fun r hr => hpath r (hmem r hr)
    rcases List.mem_cons.mp hp with rfl | hp
    · exact hrecords p (List.mem_cons_of_mem _ List.mem_cons_self)
    · rcases List.mem_cons.mp hp with rfl | hp
      · exact hpath record List.mem_cons_self p (by rw [hread]; rfl)
      · exact hs p hp

theorem notMem_gitStatus {raw : List Char} {s : GitStatus} (h : gitStatus raw = .ok s) :
    ∀ path ∈ s.changedPaths, '\x00' ∉ path := by
  unfold gitStatus at h
  split_ifs at h
  split at h
  · cases h
  · next head branch paths hread =>
    split_ifs at h
    all_goals
      cases h
      intro path hpath
      have hmem : path ∈ paths := by simpa using hpath
      exact notMem_readRecords
        (fun record hrecord => notMem_splitNul raw record (List.dropLast_subset _ hrecord))
        (by simp) hread path hmem
  · cases h

/-! ## What the bytes tell -/

theorem notMem_utf8EncodeChar {c : Char} (hc : c ≠ '\x00') : 0 ∉ String.utf8EncodeChar c := by
  have hval : c.toNat = c.val.toNat := rfl
  have hpos : 0 < c.val.toNat := by
    rcases Nat.eq_zero_or_pos c.val.toNat with hzero | hpos
    · exact absurd (Char.ext (UInt32.toNat_inj.mp hzero)) hc
    · exact hpos
  intro hmem
  unfold String.utf8EncodeChar at hmem
  simp only at hmem
  split_ifs at hmem <;> simp [← UInt8.toNat_inj] at hmem <;> omega

theorem notMem_encode {path : List Char} (h : '\x00' ∉ path) : 0 ∉ encode path := by
  intro hmem
  obtain ⟨c, hc, hzero⟩ := List.mem_flatMap.mp hmem
  exact notMem_utf8EncodeChar (fun heq => h (heq ▸ hc)) hzero

theorem encode_injective : Function.Injective encode := by
  intro p q h
  have hbytes : (String.ofList p).toByteArray = (String.ofList q).toByteArray := by
    rw [String.toByteArray_ofList, String.toByteArray_ofList]
    exact congrArg List.toByteArray h
  exact String.ofList_injective (String.toByteArray_inj.mp hbytes)

/-- A text up to its first zero byte. -/
theorem delimited {p q : Bytes} {r s : Bytes} (hp : 0 ∉ p) (hq : 0 ∉ q)
    (h : p ++ 0 :: r = q ++ 0 :: s) : p = q ∧ r = s := by
  induction p generalizing q with
  | nil =>
    cases q with
    | nil => exact ⟨rfl, (List.cons.inj h).2⟩
    | cons b q => exact absurd ((List.cons.inj h).1 ▸ List.mem_cons_self) hq
  | cons a p ih =>
    cases q with
    | nil => exact absurd ((List.cons.inj h).1 ▸ List.mem_cons_self) hp
    | cons b q =>
      obtain ⟨rfl, htail⟩ := List.cons.inj h
      obtain ⟨rfl, hrest⟩ := ih (fun hm => hp (List.mem_cons_of_mem _ hm))
        (fun hm => hq (List.mem_cons_of_mem _ hm)) htail
      exact ⟨rfl, hrest⟩

/-! ## Two trees -/

/-- How two lists of entries come to the same bytes: at the first entry that differs, a path is
deleted in one of them and has in the other a content whose hash begins with the word for a
deletion, and what is left of that hash begins the bytes that follow the deletion. -/
inductive Clash (sha256 : Bytes → Bytes) :
    List (List Char × Option Bytes) → List (List Char × Option Bytes) → Prop
  | deleted {path content r l m} (hsha : sha256 content = deletedMark ++ r)
    (hrest : treeBytes sha256 l = r ++ treeBytes sha256 m) :
    Clash sha256 ((path, none) :: l) ((path, some content) :: m)
  | present {path content r l m} (hsha : sha256 content = deletedMark ++ r)
    (hrest : treeBytes sha256 l = r ++ treeBytes sha256 m) :
    Clash sha256 ((path, some content) :: m) ((path, none) :: l)
  | cons {e l m} (hclash : Clash sha256 l m) : Clash sha256 (e :: l) (e :: m)

variable {sha256 : Bytes → Bytes} {l m : List (List Char × Option Bytes)}

theorem treeBytes_cons (e : List Char × Option Bytes) :
    treeBytes sha256 (e :: l) = entryBytes sha256 e ++ treeBytes sha256 l := List.flatMap_cons ..

theorem entryBytes_eq (path : List Char) (content : Option Bytes) :
    entryBytes sha256 (path, content) =
      encode path ++ 0 :: (content.map sha256).getD deletedMark := by
  cases content <;> rfl

/-- Lists that clash come to the same bytes. -/
theorem Clash.treeBytes_eq (h : Clash sha256 l m) : treeBytes sha256 l = treeBytes sha256 m := by
  induction h with
  | deleted hsha hrest =>
    simp [treeBytes_cons, entryBytes, hsha, hrest]
  | present hsha hrest =>
    simp [treeBytes_cons, entryBytes, hsha, hrest]
  | cons _ ih => rw [treeBytes_cons, treeBytes_cons, ih]

/-- Lists that clash have a path that is deleted in one of them only. -/
theorem Clash.differ (h : Clash sha256 l m) : ∃ path content,
    ((path, none) ∈ l ∧ (path, some content) ∈ m) ∨
      ((path, some content) ∈ l ∧ (path, none) ∈ m) := by
  induction h with
  | @deleted path content r l m hsha hrest =>
    exact ⟨path, content, .inl ⟨List.mem_cons_self, List.mem_cons_self⟩⟩
  | @present path content r l m hsha hrest =>
    exact ⟨path, content, .inr ⟨List.mem_cons_self, List.mem_cons_self⟩⟩
  | cons _ ih =>
    obtain ⟨path, content, h⟩ := ih
    exact ⟨path, content,
      h.imp (And.imp (List.mem_cons_of_mem _) (List.mem_cons_of_mem _))
        (And.imp (List.mem_cons_of_mem _) (List.mem_cons_of_mem _))⟩

/-- The word for a deletion ends before a hash does. -/
theorem follows {content r s : Bytes} (hlength : ∀ bytes, (sha256 bytes).length = 32)
    (h : deletedMark ++ r = sha256 content ++ s) :
    ∃ t, sha256 content = deletedMark ++ t ∧ r = t ++ s := by
  rcases List.append_eq_append_iff.mp h with ⟨t, ht, hr⟩ | ⟨t, ht, -⟩
  · exact ⟨t, ht, hr⟩
  · have hle := congrArg List.length ht
    rw [List.length_append, hlength] at hle
    simp [deletedMark] at hle
    omega

/-- Lists with the same bytes are the same, or clash. -/
theorem eq_or_clash (hlength : ∀ bytes, (sha256 bytes).length = 32)
    (hl : ∀ e ∈ l, '\x00' ∉ e.1) (hm : ∀ e ∈ m, '\x00' ∉ e.1)
    (hinj : ∀ e ∈ l, ∀ f ∈ m, ∀ c d, e.2 = some c → f.2 = some d → sha256 c = sha256 d → c = d)
    (h : treeBytes sha256 l = treeBytes sha256 m) : l = m ∨ Clash sha256 l m := by
  induction l generalizing m with
  | nil =>
    cases m with
    | nil => exact .inl rfl
    | cons f m =>
      obtain ⟨path, content⟩ := f
      rw [treeBytes_cons, entryBytes_eq] at h
      simp [treeBytes] at h
  | cons e l ih =>
    obtain ⟨p, c⟩ := e
    cases m with
    | nil =>
      rw [treeBytes_cons, entryBytes_eq] at h
      simp [treeBytes] at h
    | cons f m =>
      obtain ⟨q, d⟩ := f
      rw [treeBytes_cons, treeBytes_cons, entryBytes_eq, entryBytes_eq, List.append_assoc,
        List.append_assoc, List.cons_append, List.cons_append] at h
      obtain ⟨hpath, hrest⟩ := delimited (notMem_encode (hl _ List.mem_cons_self))
        (notMem_encode (hm _ List.mem_cons_self)) h
      obtain rfl := encode_injective hpath
      have hstep : treeBytes sha256 l = treeBytes sha256 m →
          l = m ∨ Clash sha256 l m := ih (fun e he => hl e (List.mem_cons_of_mem _ he))
        (fun e he => hm e (List.mem_cons_of_mem _ he))
        (fun e he f hf => hinj e (List.mem_cons_of_mem _ he) f (List.mem_cons_of_mem _ hf))
      have htail : treeBytes sha256 l = treeBytes sha256 m →
          (p, c) :: l = (p, c) :: m ∨ Clash sha256 ((p, c) :: l) ((p, c) :: m) := fun heq =>
        (hstep heq).imp (congrArg _) .cons
      cases c with
      | none =>
        cases d with
        | none => exact htail (List.append_cancel_left hrest)
        | some content =>
          obtain ⟨r, hsha, hafter⟩ := follows hlength hrest
          exact .inr (.deleted hsha hafter)
      | some content =>
        cases d with
        | none =>
          obtain ⟨r, hsha, hafter⟩ := follows hlength hrest.symm
          exact .inr (.present hsha hafter)
        | some content' =>
          obtain ⟨hsha, hafter⟩ := List.append_inj hrest
            ((hlength content).trans (hlength content').symm)
          obtain rfl := hinj _ List.mem_cons_self _ List.mem_cons_self content content' rfl rfl hsha
          exact htail hafter

/-! ## Trees with one digest -/

/-- The paths that are listed as changed. -/
def Worktree.changed (w : Worktree) : List (List Char) :=
  match gitStatus w.status with
  | .ok s => s.changedPaths
  | .error _ => []

/-- The content of a file. -/
def Worktree.content (w : Worktree) (path : List Char) : Option Bytes :=
  match w.node path with
  | some (.regular bytes _) => some bytes
  | _ => none

/-- The changed paths with what they are. -/
def Worktree.entries (w : Worktree) : List (List Char × Option Bytes) :=
  w.changed.map fun path => (path, w.content path)

/-- The state of a path: not changed, deleted, or there with some bytes. -/
def Worktree.state (w : Worktree) (path : List Char) : Option (Option Bytes) :=
  if w.changed.contains path then some (w.content path) else none

/-- Two trees with the same changed paths in the same states. -/
def SameTree (v w : Worktree) : Prop := ∀ path, v.state path = w.state path

/-- What is hashed for a workspace. -/
def hashed (sha256 : Bytes → Bytes) (baseCommit : List Char) (w : Worktree) : List Bytes :=
  (encode baseCommit ++ treeBytes sha256 w.entries) :: w.entries.filterMap Prod.snd

variable {v w : Worktree} {baseCommit d d' : List Char}

theorem readEntry_ok {path : List Char} {e : List Char × Option Bytes}
    (h : readEntry w path = .ok e) : e = (path, w.content path) := by
  unfold readEntry at h
  obtain ⟨-, -, h⟩ := bind_eq_ok.mp h
  unfold Worktree.content
  cases hnode : w.node path with
  | none =>
    simp only [hnode] at h
    cases h
    rfl
  | some node =>
    simp only [hnode] at h
    cases node with
    | regular bytes executable =>
      obtain ⟨-, h⟩ := ite_error_eq_ok.mp h
      cases h
      rfl
    | directory | other => cases h

theorem reads_ok {paths : List (List Char)} {entries : List (List Char × Option Bytes)}
    (h : paths.mapM (readEntry w) = .ok entries) :
    entries = paths.map fun path => (path, w.content path) := by
  have hall := forall₂_of_mapM_eq_ok h
  clear h
  induction hall with
  | nil => rfl
  | cons he _ ih => rw [List.map_cons, readEntry_ok he, ih]

theorem workspaceDigest_ok (h : workspaceDigest sha256 baseCommit w = .ok d) :
    d = hexdigest (sha256 (encode baseCommit ++ treeBytes sha256 w.entries)) ∧
      ∀ e ∈ w.entries, '\x00' ∉ e.1 := by
  unfold workspaceDigest at h
  obtain ⟨-, -, h⟩ := bind_eq_ok.mp h
  obtain ⟨s, hs, h⟩ := bind_eq_ok.mp h
  obtain ⟨entries, hentries, h⟩ := bind_eq_ok.mp h
  have hchanged : w.changed = s.changedPaths := by
    unfold Worktree.changed
    rw [hs]
  have hread : entries = w.entries := by
    unfold Worktree.entries
    rw [hchanged]
    exact reads_ok hentries
  cases h
  refine ⟨by rw [hread], fun e he => ?_⟩
  obtain ⟨path, hpath, rfl⟩ := List.mem_map.mp he
  exact notMem_gitStatus hs path (hchanged ▸ hpath)

theorem hexdigest_injective : Function.Injective hexdigest := by
  intro a b h
  induction a generalizing b with
  | nil =>
    cases b with
    | nil => rfl
    | cons y b => simp [hexdigest] at h
  | cons x a ih =>
    cases b with
    | nil => simp [hexdigest] at h
    | cons y b =>
      have hcons : ∀ (z : UInt8) (c : Bytes), hexdigest (z :: c) =
          hexDigit (z.toNat / 16) :: hexDigit (z.toNat % 16) :: hexdigest c := fun _ _ => rfl
      rw [hcons, hcons] at h
      obtain ⟨hhigh, h⟩ := List.cons.inj h
      obtain ⟨hlow, htail⟩ := List.cons.inj h
      have hdigit : ∀ m n, m < 16 → n < 16 → hexDigit m = hexDigit n → m = n := by
        intro m n hm hn heq
        have := congrArg hexValue heq
        rw [hexValue_hexDigit m hm, hexValue_hexDigit n hn] at this
        exact Option.some.inj this
      have hx := x.toNat_lt
      have hy := y.toNat_lt
      have hdiv := hdigit _ _ (by omega) (by omega) hhigh
      have hmod := hdigit _ _ (by omega) (by omega) hlow
      have hxy : x = y := UInt8.toNat_inj.mp (by omega)
      rw [hxy, ih htail]

theorem mem_entries {path : List Char} {content : Option Bytes} :
    (path, content) ∈ w.entries ↔ w.state path = some content := by
  unfold Worktree.entries Worktree.state
  simp only [List.mem_map, Prod.mk.injEq, List.contains_iff_mem]
  constructor
  · rintro ⟨q, hq, rfl, rfl⟩
    rw [if_pos hq]
  · intro h
    split_ifs at h with hpath
    exact ⟨path, hpath, rfl, Option.some.inj h⟩

/-- Equal digests are of one tree exactly where the lists of changes do not clash. -/
theorem digest_identifies_iff (hlength : ∀ bytes, (sha256 bytes).length = 32)
    (hinj : ∀ x ∈ hashed sha256 baseCommit v ++ hashed sha256 baseCommit w,
      ∀ y ∈ hashed sha256 baseCommit v ++ hashed sha256 baseCommit w, sha256 x = sha256 y → x = y)
    (hv : workspaceDigest sha256 baseCommit v = .ok d)
    (hw : workspaceDigest sha256 baseCommit w = .ok d') :
    (d = d' → SameTree v w) ↔ ¬ Clash sha256 v.entries w.entries := by
  obtain ⟨hd, hvpaths⟩ := workspaceDigest_ok hv
  obtain ⟨hd', hwpaths⟩ := workspaceDigest_ok hw
  constructor
  · intro hsame hclash
    have htree := hsame (by rw [hd, hd', hclash.treeBytes_eq])
    obtain ⟨path, content, ⟨hdeleted, hpresent⟩ | ⟨hpresent, hdeleted⟩⟩ := hclash.differ
    · rw [mem_entries, htree path, mem_entries.mp hpresent] at hdeleted
      cases hdeleted
    · rw [mem_entries, htree path, mem_entries.mp hdeleted] at hpresent
      cases hpresent
  · intro hclash heq
    have hsha := hexdigest_injective (hd.symm.trans (heq.trans hd'))
    have hbytes := hinj _ (List.mem_append_left _ List.mem_cons_self)
      _ (List.mem_append_right _ List.mem_cons_self) hsha
    have hcontents : ∀ e ∈ v.entries, ∀ f ∈ w.entries, ∀ c c', e.2 = some c → f.2 = some c' →
        sha256 c = sha256 c' → c = c' := by
      intro e he f hf c c' hc hc' hsha
      refine hinj c (List.mem_append_left _ (List.mem_cons_of_mem _ ?_)) c'
        (List.mem_append_right _ (List.mem_cons_of_mem _ ?_)) hsha
      · exact List.mem_filterMap.mpr ⟨e, he, hc⟩
      · exact List.mem_filterMap.mpr ⟨f, hf, hc'⟩
    have hentries := (eq_or_clash hlength hvpaths hwpaths hcontents
      (List.append_cancel_left hbytes)).resolve_right hclash
    intro path
    refine Option.ext fun content => ?_
    rw [← mem_entries, ← mem_entries, hentries]

/-! ## A clash -/

/-- The status of a branch with some more records. -/
def sampleStatus (records : List (List Char)) : List Char :=
  (oidMark ++ List.replicate 40 'a' ++ ['\x00']) ++ (headMark ++ ['m', '\x00']) ++
    records.flatMap fun record => record ++ ['\x00']

/-- The record of a file that differs from the base commit. -/
def sampleRecord (path : List Char) : List Char :=
  ['1', ' ', '.', 'M', ' ', 'N', '.', '.', '.', ' ', '1', ' ', '1', ' ', '1', ' '] ++
    List.replicate 40 'b' ++ [' '] ++ List.replicate 40 'b' ++ [' '] ++ path

/-- A name of seventeen characters. -/
def sampleName : List Char := List.replicate 17 'b'

/-- Two files are deleted. -/
def sampleDeleted : Worktree where
  verified := .ok ()
  status := sampleStatus [sampleRecord ['a'], sampleRecord sampleName]
  target := fun _ => .ok ()
  node := fun _ => none

/-- One file is edited. -/
def sampleEdited : Worktree where
  verified := .ok ()
  status := sampleStatus [sampleRecord ['a']]
  target := fun _ => .ok ()
  node := fun _ => some (.regular [1] false)

/-- A hash that begins with the word for a deletion, and goes on as an entry does. -/
def sampleSha (bytes : Bytes) : Bytes :=
  if bytes = [1] then deletedMark ++ encode sampleName ++ 0 :: deletedMark
  else List.replicate 32 0

theorem gitStatus_sampleDeleted :
    gitStatus sampleDeleted.status =
      .ok ⟨some ['m'], List.replicate 40 'a', [['a'], sampleName]⟩ := by rfl

theorem gitStatus_sampleEdited :
    gitStatus sampleEdited.status = .ok ⟨some ['m'], List.replicate 40 'a', [['a']]⟩ := by rfl

theorem entries_sampleDeleted : sampleDeleted.entries = [(['a'], none), (sampleName, none)] := by
  unfold Worktree.entries Worktree.changed
  rw [gitStatus_sampleDeleted]
  rfl

theorem entries_sampleEdited : sampleEdited.entries = [(['a'], some [1])] := by
  unfold Worktree.entries Worktree.changed
  rw [gitStatus_sampleEdited]
  rfl

theorem workspaceDigest_sampleDeleted :
    workspaceDigest sampleSha (List.replicate 40 'a') sampleDeleted =
      .ok (hexdigest (List.replicate 32 0)) := by
  unfold workspaceDigest
  rw [gitStatus_sampleDeleted]
  rfl

theorem workspaceDigest_sampleEdited :
    workspaceDigest sampleSha (List.replicate 40 'a') sampleEdited =
      .ok (hexdigest (List.replicate 32 0)) := by
  unfold workspaceDigest
  rw [gitStatus_sampleEdited]
  rfl

theorem length_sampleSha (bytes : Bytes) : (sampleSha bytes).length = 32 := by
  unfold sampleSha
  split_ifs
  · rfl
  · rfl

theorem clash_sample : Clash sampleSha sampleDeleted.entries sampleEdited.entries := by
  rw [entries_sampleDeleted, entries_sampleEdited]
  exact .deleted (r := encode sampleName ++ 0 :: deletedMark) (by rfl) (by rfl)

/-- What is hashed of the two trees: the same bytes, and the content of the edited file. -/
theorem mem_hashed_sample {x : Bytes}
    (h : x ∈ hashed sampleSha (List.replicate 40 'a') sampleDeleted ++
      hashed sampleSha (List.replicate 40 'a') sampleEdited) :
    x = encode (List.replicate 40 'a') ++ treeBytes sampleSha sampleDeleted.entries ∨ x = [1] := by
  unfold hashed at h
  rw [← clash_sample.treeBytes_eq, entries_sampleEdited] at h
  simpa [entries_sampleDeleted] using h

theorem hashed_sample :
    ∀ x ∈ hashed sampleSha (List.replicate 40 'a') sampleDeleted ++
        hashed sampleSha (List.replicate 40 'a') sampleEdited,
      ∀ y ∈ hashed sampleSha (List.replicate 40 'a') sampleDeleted ++
        hashed sampleSha (List.replicate 40 'a') sampleEdited,
        sampleSha x = sampleSha y → x = y := by
  have hapart : sampleSha (encode (List.replicate 40 'a') ++
      treeBytes sampleSha sampleDeleted.entries) ≠ sampleSha [1] := by
    rw [entries_sampleDeleted]
    decide
  intro x hx y hy hsha
  rcases mem_hashed_sample hx with rfl | rfl
  · rcases mem_hashed_sample hy with rfl | rfl
    · rfl
    · exact absurd hsha hapart
  · rcases mem_hashed_sample hy with rfl | rfl
    · exact absurd hsha.symm hapart
    · rfl

/-- Two deleted files have the digest of one edited one. -/
theorem one_digest_two_trees :
    ¬ ∀ (sha256 : Bytes → Bytes) (baseCommit : List Char) (v w : Worktree) (d : List Char),
      (∀ bytes, (sha256 bytes).length = 32) →
      (∀ x ∈ hashed sha256 baseCommit v ++ hashed sha256 baseCommit w,
        ∀ y ∈ hashed sha256 baseCommit v ++ hashed sha256 baseCommit w,
          sha256 x = sha256 y → x = y) →
      workspaceDigest sha256 baseCommit v = .ok d → workspaceDigest sha256 baseCommit w = .ok d →
      SameTree v w := by
  intro hall
  have hsame := hall sampleSha (List.replicate 40 'a') sampleDeleted sampleEdited _
    length_sampleSha hashed_sample workspaceDigest_sampleDeleted workspaceDigest_sampleEdited
  have hdeleted : (['a'], none) ∈ sampleDeleted.entries := by
    rw [entries_sampleDeleted]
    exact List.mem_cons_self
  have hedited : (['a'], some [1]) ∈ sampleEdited.entries := by
    rw [entries_sampleEdited]
    exact List.mem_cons_self
  rw [mem_entries, hsame, mem_entries.mp hedited] at hdeleted
  cases hdeleted

theorem sample_not_identified :
    ¬ (hexdigest (List.replicate 32 0) = hexdigest (List.replicate 32 0) →
      SameTree sampleDeleted sampleEdited) := fun hsame =>
  (digest_identifies_iff length_sampleSha hashed_sample workspaceDigest_sampleDeleted
    workspaceDigest_sampleEdited).mp hsame clash_sample

end TreeDigest

end Orqalis
