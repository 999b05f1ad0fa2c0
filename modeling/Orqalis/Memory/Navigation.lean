import Orqalis.Lib.Compact
import Orqalis.Lib.Outcome
import Orqalis.Memory.Supersession

/-!
# Reading a record page by page

A long record is read in pages, each a JSON text within a budget that holds a part of the
content, where the next page begins, and its own length. How much content fits is found by a
binary search over the end of the part.

A page tells its length, keeps to its budget and goes on (`read_ok`). The search takes it that
less content makes a shorter page. That is so but for the last page, which has `null` for the
next offset: where that offset has six digits or more, the page with the rest of the content may
fit although a page with one more character does not, and then the search misses it
(`paging_iff`).
-/

namespace Orqalis

open Lib Lib.Json Lib.Outcome

inductive MemoryFreshness
  | FRESH
  | STALE
deriving DecidableEq, Repr

def MemoryFreshness.text : MemoryFreshness → List Char
  | FRESH => ['F', 'R', 'E', 'S', 'H']
  | STALE => ['S', 'T', 'A', 'L', 'E']

def MemoryLifecycle.text : MemoryLifecycle → List Char
  | ACTIVE => ['A', 'C', 'T', 'I', 'V', 'E']
  | SUPERSEDED => ['S', 'U', 'P', 'E', 'R', 'S', 'E', 'D', 'E', 'D']
  | PENDING => ['P', 'E', 'N', 'D', 'I', 'N', 'G']

/-- What is known of a record beside its text. -/
structure MemoryRecordStatus where
  freshness : MemoryFreshness
  lifecycle : MemoryLifecycle
  supersededBy : Option MemoryId

structure MemoryDiscoveryItem where
  id : MemoryId
  title : List Char
  category : MemoryCategory
  preview : List Char
  contentChars : Nat
  references : List MemoryId
  referenceCount : Nat
  freshness : MemoryFreshness
  lifecycle : MemoryLifecycle
  supersededBy : Option MemoryId
  score : Json.Number
  matchedOn : List (List Char)

structure MemoryReadPage where
  item : MemoryDiscoveryItem
  source : MemoryProvenance
  verifiedCommit : Option (List Char)
  content : List Char
  offset : Nat
  nextOffset : Option Nat
  references : List MemoryId
  sizeChars : Nat
  maxChars : Nat

namespace MemoryNavigation

/-! ## The texts -/

/-- A text, or `null`. -/
def nullable : Option (List Char) → Json
  | none => .null
  | some s => .str s

/-- A number, or `null`. -/
def nullableNumber : Option Nat → Json
  | none => .null
  | some n => natural n

def itemJson (item : MemoryDiscoveryItem) : Json :=
  .obj [
    ("id".toList, .str item.id.text),
    ("title".toList, .str item.title),
    ("category".toList, .str item.category.text),
    ("preview".toList, .str item.preview),
    ("content_chars".toList, natural item.contentChars),
    ("references".toList, .arr (item.references.map fun r => .str r.text)),
    ("reference_count".toList, natural item.referenceCount),
    ("freshness".toList, .str item.freshness.text),
    ("lifecycle".toList, .str item.lifecycle.text),
    ("superseded_by".toList, nullable (item.supersededBy.map MemoryId.text)),
    ("score".toList, .num item.score),
    ("matched_on".toList, .arr (item.matchedOn.map .str))]

def provenanceJson (source : MemoryProvenance) : Json :=
  .obj [
    ("type".toList, .str source.type.text),
    ("paths".toList, .arr (source.paths.map .str)),
    ("content_hashes".toList,
      .obj (source.contentHashes.entries.map fun e => (e.1, .str e.2)))]

def pageJson (page : MemoryReadPage) : Json :=
  .obj [
    ("item".toList, itemJson page.item),
    ("source".toList, provenanceJson page.source),
    ("verified_commit".toList, nullable page.verifiedCommit),
    ("content".toList, .str page.content),
    ("offset".toList, natural page.offset),
    ("next_offset".toList, nullableNumber page.nextOffset),
    ("references".toList, .arr (page.references.map fun r => .str r.text)),
    ("size_chars".toList, natural page.sizeChars),
    ("max_chars".toList, natural page.maxChars)]

/-- How long the text of a page is. -/
def pageLength (page : MemoryReadPage) : Nat := (compact escape (pageJson page)).length

/-! ## The service -/

/-- `str.split` -/
def words (s : List Char) : List (List Char) :=
  (s.splitOnP Text.space).filter (· ≠ [])

/-- `memory_preview`, for no query. -/
def memoryPreview (record : DurableMemoryRecord) (status : MemoryRecordStatus) :
    MemoryDiscoveryItem where
  id := record.id
  title := record.title
  category := record.category
  preview :=
    ((words (if record.summary.getD [] = [] then record.content else record.summary.getD
      [])).intersperse [' ']).flatten.take 160
  contentChars := record.content.length
  references := record.references.take 4
  referenceCount := record.references.length
  freshness := status.freshness
  lifecycle := status.lifecycle
  supersededBy := status.supersededBy
  score := ⟨['0', '.', '0'], by decide, by decide⟩
  matchedOn := []

/-- `_budget` -/
def budget (maxChars : Int) : Except Error Unit :=
  if 1000 ≤ maxChars ∧ maxChars ≤ 200000 then .ok ()
  else .error (.input "Memory response budget must be between 1000 and 200000 characters")

/-- `_size`: set the length of a page, until it no longer changes, four times at most. -/
def sized : Nat → MemoryReadPage → MemoryReadPage
  | 0, page => page
  | rounds + 1, page =>
    if pageLength page = page.sizeChars then page
    else sized rounds { page with sizeChars := pageLength page }

variable (record : DurableMemoryRecord) (status : MemoryRecordStatus) (offset maxChars : Nat)

/-- The page up to some end. -/
def page (stop : Nat) : MemoryReadPage :=
  sized 4 {
    item := memoryPreview record status
    source := record.source
    verifiedCommit := record.verifiedCommit
    content := (record.content.take stop).drop offset
    offset
    nextOffset := if stop < record.content.length then some stop else none
    references := record.references
    sizeChars := 0
    maxChars }

/-- The binary search for the last page that fits; the fuel counts the ends that are left. -/
def search : Nat → Int → Int → MemoryReadPage → MemoryReadPage
  | 0, _, _, best => best
  | fuel + 1, low, high, best =>
    if high < low then best
    else if (page record status offset maxChars ((low + high) / 2).toNat).sizeChars ≤ maxChars then
      search fuel ((low + high) / 2 + 1) high
        (page record status offset maxChars ((low + high) / 2).toNat)
    else search fuel low ((low + high) / 2 - 1) best

/-- The page that the search comes to. -/
def best : MemoryReadPage :=
  search record status offset maxChars (maxChars + 1) offset
    (min record.content.length (offset + maxChars) : Nat)
    (page record status offset maxChars offset)

/-- `read`, for a record and its status. -/
def read (offset maxChars : Int) : Except Error MemoryReadPage := do
  budget maxChars
  if ¬ (0 ≤ offset ∧ offset ≤ record.content.length) then
    .error (.input "Memory offset is outside the record body")
  else if maxChars.toNat < (page record status offset.toNat maxChars.toNat
      offset.toNat).sizeChars then
    .error (.input "Memory provenance metadata exceeds response budget; increase max_chars")
  else if (best record status offset.toNat maxChars.toNat).nextOffset = some offset.toNat ∧
      offset < record.content.length then
    .error (.input "Memory response budget has no space for content; increase max_chars")
  else .ok (best record status offset.toNat maxChars.toNat)

/-! ## How long a page is -/

/-- What the next offset takes. -/
def nextLength : Option Nat → Nat
  | none => 4
  | some n => width n

/-- The characters of a page beside its content, its next offset and its length. -/
def frame (page : MemoryReadPage) : Nat :=
  (compact escape (itemJson page.item)).length +
    (compact escape (provenanceJson page.source)).length +
    (compact escape (nullable page.verifiedCommit)).length + width page.offset +
    (compact escape (.arr (page.references.map fun r => .str r.text))).length +
    width page.maxChars + 117

theorem length_nullableNumber (n : Option Nat) :
    (compact escape (nullableNumber n)).length = nextLength n := by
  cases n <;> rfl

theorem pageLength_eq (page : MemoryReadPage) :
    pageLength page =
      frame page + escaped page.content + nextLength page.nextOffset + width page.sizeChars := by
  unfold pageLength pageJson frame
  simp only [compact, compactMembers, List.length_cons, List.length_append, List.length_nil,
    length_quote, length_nullableNumber, compact_natural]
  have hkeys : escaped "item".toList + escaped "source".toList +
      escaped "verified_commit".toList + escaped "content".toList + escaped "offset".toList +
      escaped "next_offset".toList + escaped "references".toList + escaped "size_chars".toList +
      escaped "max_chars".toList = 78 := by rfl
  unfold width
  omega

/-- The characters of a page beside its length. -/
def bulk (page : MemoryReadPage) : Nat :=
  frame page + escaped page.content + nextLength page.nextOffset

/-- Sizing a page sets its length to what the rounds come to. -/
theorem sized_eq (rounds : Nat) (page : MemoryReadPage) :
    sized rounds page =
      { page with sizeChars := settleFrom (bulk page) rounds page.sizeChars } := by
  induction rounds generalizing page with
  | zero => rfl
  | succ rounds ih =>
    unfold sized
    rw [settleFrom_succ]
    have hlength : pageLength page = bulk page + width page.sizeChars := pageLength_eq page
    split_ifs with h
    · rw [← hlength, h, settleFrom_of_eq rounds (hlength.symm.trans h)]
    · rw [ih, hlength]
      rfl

variable (record : DurableMemoryRecord) (status : MemoryRecordStatus) (offset maxChars : Nat)

/-- Where the next page begins. -/
def nextOf (stop : Nat) : Option Nat := if stop < record.content.length then some stop else none

/-- The page up to some end, before it is sized. -/
def draft (stop : Nat) : MemoryReadPage where
  item := memoryPreview record status
  source := record.source
  verifiedCommit := record.verifiedCommit
  content := (record.content.take stop).drop offset
  offset
  nextOffset := nextOf record stop
  references := record.references
  sizeChars := 0
  maxChars

/-- What a page up to some end has beside its content and its next offset. -/
def base : Nat := frame (draft record status offset maxChars 0)

/-- Whether the page up to some end fits. -/
def Fits (stop : Nat) : Prop :=
  base record status offset maxChars + escaped ((record.content.take stop).drop offset) +
    nextLength (nextOf record stop) + width maxChars ≤ maxChars

variable {record status offset maxChars}

theorem page_eq (stop : Nat) :
    page record status offset maxChars stop =
      { draft record status offset maxChars stop with
        sizeChars := settle (bulk (draft record status offset maxChars stop)) } :=
  sized_eq 4 _

/-- A page is as long as it says. -/
theorem pageLength_page (stop : Nat) :
    pageLength (page record status offset maxChars stop) =
      (page record status offset maxChars stop).sizeChars := by
  rw [pageLength_eq, page_eq]
  exact settle_eq _

theorem fits_iff (stop : Nat) :
    (page record status offset maxChars stop).sizeChars ≤ maxChars ↔
      Fits record status offset maxChars stop := by
  rw [page_eq]
  exact settle_le_iff

/-! ## Which pages fit -/

/-- A longer part takes no fewer characters. -/
theorem escaped_slice_le {s : List Char} {a b : Nat} (h : a ≤ b) :
    escaped ((s.take a).drop offset) ≤ escaped ((s.take b).drop offset) := by
  obtain ⟨rest, hrest⟩ := (List.take_prefix_take_left h (l := s)).drop offset
  rw [← hrest, escaped_append]
  exact Nat.le_add_right _ _

/-- Before the last page, less content makes a shorter page. -/
theorem Fits.le {a b : Nat} (h : Fits record status offset maxChars b) (hab : a ≤ b)
    (hb : b < record.content.length) : Fits record status offset maxChars a := by
  unfold Fits nextOf at h ⊢
  rw [if_pos hb] at h
  rw [if_pos (Nat.lt_of_le_of_lt hab hb)]
  have hescaped : escaped ((record.content.take a).drop offset) ≤
      escaped ((record.content.take b).drop offset) := escaped_slice_le hab
  have hnext : nextLength (some a) ≤ nextLength (some b) := width_mono hab
  omega

/-! ## The search -/

/-- What the search comes to fits, and lies where it looked. The end of the range is found only
where the page before it fits. -/
theorem search_fits (fuel : Nat) (low high : Int) {b : Nat} (hlow : 0 ≤ low)
    (hb : Fits record status offset maxChars b) :
    ∃ stop : Nat, search record status offset maxChars fuel low high
        (page record status offset maxChars b) = page record status offset maxChars stop ∧
      Fits record status offset maxChars stop ∧
      (stop = b ∨ low ≤ stop ∧ stop < high ∨ (low ≤ stop ∧ stop = high) ∧
        (low = high ∨ Fits record status offset maxChars (stop - 1))) := by
  induction fuel generalizing low high b with
  | zero => exact ⟨b, rfl, hb, .inl rfl⟩
  | succ fuel ih =>
    unfold search
    split_ifs with hempty hfits
    · exact ⟨b, rfl, hb, .inl rfl⟩
    · have hmiddle := (fits_iff _).mp hfits
      obtain ⟨stop, heq, hstop, hwhere⟩ :=
        ih ((low + high) / 2 + 1) high (by omega) hmiddle
      refine ⟨stop, heq, hstop, .inr ?_⟩
      rcases hwhere with rfl | hwhere | ⟨htop, hlast | hlast⟩
      · omega
      · omega
      · have hbefore : stop - 1 = ((low + high) / 2).toNat := by omega
        exact .inr ⟨⟨by omega, htop.2⟩, .inr (hbefore ▸ hmiddle)⟩
      · exact .inr ⟨⟨by omega, htop.2⟩, .inr hlast⟩
    · obtain ⟨stop, heq, hstop, hwhere⟩ := ih low ((low + high) / 2 - 1) hlow hb
      refine ⟨stop, heq, hstop, ?_⟩
      rcases hwhere with rfl | hwhere | ⟨htop, -⟩
      · exact .inl rfl
      · exact .inr (.inl (by omega))
      · exact .inr (.inl (by omega))

/-- Ends that fit from the start of the range on are not passed over. -/
theorem search_reaches (fuel : Nat) (low high : Int) {b q : Nat} (hlow : 0 ≤ low)
    (hb : Fits record status offset maxChars b) (hfuel : high - low < fuel)
    (hq : low ≤ q ∧ (q : Int) ≤ high)
    (hall : ∀ m : Nat, low ≤ m → m ≤ q → Fits record status offset maxChars m) :
    ∃ stop : Nat, search record status offset maxChars fuel low high
        (page record status offset maxChars b) = page record status offset maxChars stop ∧
      q ≤ stop := by
  induction fuel generalizing low high b with
  | zero => omega
  | succ fuel ih =>
    unfold search
    split_ifs with hempty hfits
    · omega
    · have hmiddle := (fits_iff _).mp hfits
      by_cases hpast : (q : Int) ≤ (low + high) / 2
      · obtain ⟨stop, heq, -, hwhere⟩ :=
          search_fits fuel ((low + high) / 2 + 1) high (by omega) hmiddle
        refine ⟨stop, heq, ?_⟩
        rcases hwhere with rfl | hwhere | ⟨htop, -⟩
        · omega
        · omega
        · omega
      · exact ih _ _ (by omega) hmiddle (by omega) (by omega) fun m hm hmq =>
          hall m (by omega) hmq
    · have hmiss : ¬ (low + high) / 2 ≤ q := fun hle =>
        hfits ((fits_iff _).mpr (hall _ (by omega) (by omega)))
      exact ih _ _ hlow hb (by omega) (by omega) hall

/-! ## One page -/

/-- Whether the search misses the last page: a page with nothing and one with all the rest fit,
but none with one more character. -/
def Misses (record : DurableMemoryRecord) (status : MemoryRecordStatus) (offset maxChars : Nat) :
    Prop :=
  offset + 1 < record.content.length ∧ Fits record status offset maxChars offset ∧
    ¬ Fits record status offset maxChars (offset + 1) ∧
    Fits record status offset maxChars record.content.length

/-- The last page is missed only where its offset has six digits. -/
theorem Misses.long (h : Misses record status offset maxChars) : 100000 ≤ offset + 1 := by
  obtain ⟨hshort, -, hmiss, hrest⟩ := h
  have hsplit : record.content.drop offset =
      (record.content.take (offset + 1)).drop offset ++ record.content.drop (offset + 1) := by
    conv_lhs => rw [← List.take_append_drop (offset + 1) record.content]
    rw [List.drop_append_of_le_length (by rw [List.length_take]; omega)]
  have hlonger : escaped ((record.content.take (offset + 1)).drop offset) + 1 ≤
      escaped (record.content.drop offset) := by
    have hpos := length_le_escaped (record.content.drop (offset + 1))
    rw [List.length_drop] at hpos
    rw [hsplit, escaped_append]
    omega
  unfold Fits nextOf at hmiss hrest
  rw [if_pos hshort] at hmiss
  rw [if_neg (Nat.lt_irrefl _), List.take_length] at hrest
  have hwide : ¬ width (offset + 1) ≤ 5 := by
    intro hwide
    change ¬ _ + _ + width (offset + 1) + _ ≤ _ at hmiss
    change _ + _ + 4 + _ ≤ _ at hrest
    omega
  rw [width_le_iff (by decide)] at hwide
  omega

/-- The search comes to a page that fits, and goes on where one more character fits. -/
theorem best_eq (hmax : 0 < maxChars) (hoffset : offset ≤ record.content.length)
    (hfirst : Fits record status offset maxChars offset) :
    ∃ stop, best record status offset maxChars = page record status offset maxChars stop ∧
      offset ≤ stop ∧ stop ≤ record.content.length ∧ Fits record status offset maxChars stop ∧
      (offset < record.content.length →
        (offset < stop ↔ Fits record status offset maxChars (offset + 1))) := by
  obtain ⟨stop, heq, hfits, hwhere⟩ := search_fits (maxChars + 1) offset
    (min record.content.length (offset + maxChars) : Nat) (Int.natCast_nonneg _) hfirst
  have hle : stop ≤ record.content.length := by
    rcases hwhere with rfl | hwhere | ⟨htop, -⟩
    · exact hoffset
    · omega
    · omega
  refine ⟨stop, heq, by omega, hle, hfits, fun hmore => ⟨fun hpast => ?_, fun hone => ?_⟩⟩
  · by_cases hlast : stop < record.content.length
    · exact hfits.le hpast hlast
    · rcases hwhere with rfl | hwhere | ⟨htop, hsame | hbefore⟩
      · omega
      · omega
      · omega
      · by_cases hnext : offset + 1 = stop
        · exact hnext ▸ hfits
        · exact hbefore.le (by omega) (by omega)
  · obtain ⟨stop', heq', hreach⟩ := search_reaches (maxChars + 1) offset
      (min record.content.length (offset + maxChars) : Nat) (q := offset + 1)
      (Int.natCast_nonneg _) hfirst (by omega) (by omega) fun m hm hmq => by
        rcases Nat.eq_or_lt_of_le hmq with rfl | hless
        · exact hone
        · obtain rfl : m = offset := by omega
          exact hfirst
    by_contra hstuck
    obtain rfl : stop = offset := by omega
    have hnext : nextOf record stop = nextOf record stop' := by
      have hpages := congrArg MemoryReadPage.nextOffset (heq.symm.trans heq')
      rwa [page_eq, page_eq] at hpages
    unfold nextOf at hnext
    rw [if_pos hmore] at hnext
    split_ifs at hnext
    have := Option.some.inj hnext
    omega

/-- The part of the content of a page. -/
theorem content_page (stop : Nat) :
    (page record status offset maxChars stop).content = (record.content.take stop).drop offset := by
  rw [page_eq]
  rfl

theorem nextOffset_page (stop : Nat) :
    (page record status offset maxChars stop).nextOffset = nextOf record stop := by
  rw [page_eq]
  rfl

/-- What a read is to answer: a page that is as long as it says, within the budget, with the
content up to where the next one begins; and no page only where none with more content fits. -/
structure Reads (record : DurableMemoryRecord) (status : MemoryRecordStatus)
    (offset maxChars : Nat) : Prop where
  page : ∀ p, read record status offset maxChars = .ok p →
    pageLength p = p.sizeChars ∧ p.sizeChars ≤ maxChars ∧
      ((∃ stop, p.nextOffset = some stop ∧ offset < stop ∧ stop < record.content.length ∧
          p.content = (record.content.take stop).drop offset) ∨
        p.nextOffset = none ∧ p.content = record.content.drop offset)
  error : ∀ e, read record status offset maxChars = .error e →
    (MemoryNavigation.page record status offset maxChars offset).sizeChars ≤ maxChars →
    ∀ stop, offset < stop → stop ≤ record.content.length →
      ¬ (MemoryNavigation.page record status offset maxChars stop).sizeChars ≤ maxChars

theorem read_eq (hmax : 1000 ≤ maxChars ∧ maxChars ≤ 200000)
    (hoffset : offset ≤ record.content.length) :
    read record status offset maxChars =
      if maxChars < (page record status offset maxChars offset).sizeChars then
        .error (.input "Memory provenance metadata exceeds response budget; increase max_chars")
      else if (best record status offset maxChars).nextOffset = some offset ∧
          offset < record.content.length then
        .error (.input "Memory response budget has no space for content; increase max_chars")
      else .ok (best record status offset maxChars) := by
  have hbudget : budget maxChars = .ok () := if_pos (by omega)
  unfold read
  rw [hbudget, ok_bind, if_neg (by omega)]
  simp only [Int.toNat_natCast, Nat.cast_lt]

/-- What a read answers is as long as it says, keeps to the budget, and goes on. -/
theorem read_ok (hmax : 1000 ≤ maxChars ∧ maxChars ≤ 200000)
    (hoffset : offset ≤ record.content.length) {p : MemoryReadPage}
    (hp : read record status offset maxChars = .ok p) :
    pageLength p = p.sizeChars ∧ p.sizeChars ≤ maxChars ∧
      ((∃ stop, p.nextOffset = some stop ∧ offset < stop ∧ stop < record.content.length ∧
          p.content = (record.content.take stop).drop offset) ∨
        p.nextOffset = none ∧ p.content = record.content.drop offset) := by
  rw [read_eq hmax hoffset] at hp
  split_ifs at hp with hlarge hstuck
  obtain ⟨stop, hbest, hle, hstop, hfits, -⟩ :=
    best_eq (by omega) hoffset ((fits_iff _).mp (Nat.le_of_not_lt hlarge))
  rw [hbest] at hp hstuck
  cases hp
  refine ⟨pageLength_page stop, (fits_iff _).mpr hfits, ?_⟩
  rw [nextOffset_page] at hstuck ⊢
  rw [content_page]
  by_cases hmore : stop < record.content.length
  · have hnext : nextOf record stop = some stop := if_pos hmore
    have hne : stop ≠ offset := by
      rintro rfl
      exact hstuck ⟨hnext, hmore⟩
    exact .inl ⟨stop, hnext, by omega, hmore, rfl⟩
  · refine .inr ⟨if_neg hmore, ?_⟩
    rw [List.take_of_length_le (by omega)]

/-- Where a page without content fits, the read stops exactly where one more character does
not. -/
theorem read_stops (hmax : 1000 ≤ maxChars ∧ maxChars ≤ 200000)
    (hoffset : offset ≤ record.content.length)
    (hfirst : Fits record status offset maxChars offset) :
    (∃ e, read record status offset maxChars = .error e) ↔
      offset < record.content.length ∧ ¬ Fits record status offset maxChars (offset + 1) := by
  obtain ⟨stop, hbest, hle, hstop, -, hpast⟩ := best_eq (by omega) hoffset hfirst
  rw [read_eq hmax hoffset, if_neg (Nat.not_lt_of_le ((fits_iff _).mpr hfirst)), hbest,
    nextOffset_page]
  constructor
  · rintro ⟨e, he⟩
    split_ifs at he with hstuck
    obtain ⟨hnext, hmore⟩ := hstuck
    refine ⟨hmore, fun hone => ?_⟩
    have hless := (hpast hmore).mpr hone
    unfold nextOf at hnext
    split_ifs at hnext
    exact absurd (Option.some.inj hnext) (Nat.ne_of_gt hless)
  · rintro ⟨hmore, hone⟩
    have hsame : stop = offset := by
      have := mt (hpast hmore).mp hone
      omega
    rw [hsame]
    exact ⟨_, if_pos ⟨if_pos hmore, hmore⟩⟩

/-- A read is right exactly where the search does not miss the last page. -/
theorem reads_iff (hmax : 1000 ≤ maxChars ∧ maxChars ≤ 200000)
    (hoffset : offset ≤ record.content.length) :
    Reads record status offset maxChars ↔ ¬ Misses record status offset maxChars := by
  constructor
  · rintro hreads ⟨hmore, hfirst, hone, hrest⟩
    obtain ⟨e, he⟩ := (read_stops hmax hoffset hfirst).mpr ⟨by omega, hone⟩
    exact hreads.error e he ((fits_iff _).mpr hfirst) _ (by omega) le_rfl ((fits_iff _).mpr hrest)
  · refine fun hnot => ⟨fun p hp => read_ok hmax hoffset hp,
      fun e he hsize stop hpast hstop hfits => ?_⟩
    have hfirst := (fits_iff _).mp hsize
    have hfits := (fits_iff _).mp hfits
    obtain ⟨hmore, hone⟩ := (read_stops hmax hoffset hfirst).mp ⟨e, he⟩
    rcases Nat.lt_or_eq_of_le hstop with hless | rfl
    · exact hone (hfits.le hpast hless)
    · rcases Nat.lt_or_eq_of_le (Nat.succ_le_of_lt hpast) with hlong | hlast
      · exact hnot ⟨hlong, hfirst, hone, hfits⟩
      · have hlast : offset + 1 = record.content.length := hlast
        exact hone (hlast ▸ hfits)

/-! ## All pages -/

/-- Following the next offset from the start of the content: where the next page begins, and the
pages so far. -/
inductive Follows (record : DurableMemoryRecord) (status : MemoryRecordStatus) (maxChars : Nat) :
    Nat → List MemoryReadPage → Prop
  | start : Follows record status maxChars 0 []
  | next {offset pages p stop} (hpages : Follows record status maxChars offset pages)
    (hp : read record status offset maxChars = .ok p) (hnext : p.nextOffset = some stop) :
    Follows record status maxChars stop (pages ++ [p])

/-- What reading a record page by page is to come to. -/
structure Pages (record : DurableMemoryRecord) (status : MemoryRecordStatus) (maxChars : Nat) :
    Prop where
  reads : ∀ offset ≤ record.content.length, Reads record status offset maxChars
  parts : ∀ offset pages, Follows record status maxChars offset pages →
    pages.length ≤ offset ∧ offset ≤ record.content.length ∧
      pages.flatMap MemoryReadPage.content = record.content.take offset
  whole : ∀ offset pages p, Follows record status maxChars offset pages →
    read record status offset maxChars = .ok p → p.nextOffset = none →
    (pages ++ [p]).flatMap MemoryReadPage.content = record.content
  ends : ∃ offset pages, Follows record status maxChars offset pages ∧
    ((∃ p, read record status offset maxChars = .ok p ∧ p.nextOffset = none) ∨
      ∃ e, read record status offset maxChars = .error e)

theorem Follows.parts (hmax : 1000 ≤ maxChars ∧ maxChars ≤ 200000) {pages : List MemoryReadPage}
    (h : Follows record status maxChars offset pages) :
    pages.length ≤ offset ∧ offset ≤ record.content.length ∧
      pages.flatMap MemoryReadPage.content = record.content.take offset := by
  induction h with
  | start => exact ⟨le_rfl, Nat.zero_le _, rfl⟩
  | @next offset pages p stop _ hp hnext ih =>
    obtain ⟨hcount, hle, hparts⟩ := ih
    obtain ⟨-, -, ⟨stop', hstop, hpast, hmore, hcontent⟩ | ⟨hnone, -⟩⟩ := read_ok hmax hle hp
    · obtain rfl : stop = stop' := Option.some.inj (hnext.symm.trans hstop)
      refine ⟨by rw [List.length_append, List.length_singleton]; omega, hmore.le, ?_⟩
      rw [List.flatMap_append, hparts, List.flatMap_singleton, hcontent]
      conv_rhs => rw [← List.take_append_drop offset (record.content.take stop)]
      rw [List.take_take, Nat.min_eq_left hpast.le]
    · rw [hnone] at hnext
      cases hnext

theorem Follows.ends (hmax : 1000 ≤ maxChars ∧ maxChars ≤ 200000) {pages : List MemoryReadPage}
    (h : Follows record status maxChars offset pages) :
    ∃ offset pages, Follows record status maxChars offset pages ∧
      ((∃ p, read record status offset maxChars = .ok p ∧ p.nextOffset = none) ∨
        ∃ e, read record status offset maxChars = .error e) := by
  -- each page leaves less of the content
  induction hleft : record.content.length - offset using Nat.strong_induction_on
    generalizing offset pages with
  | h left ih =>
    have hle := (h.parts hmax).2.1
    cases hp : read record status offset maxChars with
    | error e => exact ⟨offset, pages, h, .inr ⟨e, hp⟩⟩
    | ok p =>
      obtain ⟨-, -, ⟨stop, hstop, hpast, hmore, -⟩ | ⟨hnone, -⟩⟩ := read_ok hmax hle hp
      · exact ih _ (by omega) (h.next hp hstop) rfl
      · exact ⟨offset, pages, h, .inl ⟨p, hp, hnone⟩⟩

/-- Reading a record page by page comes to all of its content, in pages that keep to the budget
and go on, exactly where the search misses the last page at no offset. -/
theorem paging_iff (hmax : 1000 ≤ maxChars ∧ maxChars ≤ 200000) :
    Pages record status maxChars ↔
      ∀ offset ≤ record.content.length, ¬ Misses record status offset maxChars := by
  refine ⟨fun h offset hle => (reads_iff hmax hle).mp (h.reads offset hle), fun h =>
    ⟨fun offset hle => (reads_iff hmax hle).mpr (h offset hle),
      fun offset pages hpages => hpages.parts hmax, ?_, Follows.start.ends hmax⟩⟩
  intro offset pages p hpages hp hnone
  obtain ⟨-, hle, hparts⟩ := hpages.parts hmax
  obtain ⟨-, -, ⟨stop, hstop, -⟩ | ⟨-, hcontent⟩⟩ := read_ok hmax hle hp
  · rw [hnone] at hstop
    cases hstop
  · rw [List.flatMap_append, hparts, List.flatMap_singleton, hcontent, List.take_append_drop]

/-! ## A record that is missed -/

/-- A record with some content, that was verified for a commit with a name. -/
def sampleRead (content commit : List Char) (h : content ≠ []) : DurableMemoryRecord :=
  { sampleMemory content h with
    verifiedCommit := some commit
    summary := some "Tabs".toList
    summarized := by decide }

def sampleFresh : MemoryRecordStatus := ⟨.FRESH, .ACTIVE, none⟩

theorem sample_pages :
    Pages (sampleRead "Tabs for indentation.".toList "c".toList (by decide)) sampleFresh 1000 :=
  (paging_iff (by decide)).mpr fun offset _ h => by
    have hlong := h.long
    have hshort : offset + 1 < 21 := h.1
    omega

/-- A record of so many characters and two, that leaves six characters of a page. -/
def sampleLong (n : Nat) : DurableMemoryRecord :=
  sampleRead (List.replicate (n + 2) 'a') (List.replicate 600 'c') (List.cons_ne_nil _ _)

theorem escaped_replicate (n : Nat) {c : Char} (hc : (escape c).length = 1) :
    escaped (List.replicate n c) = n := by
  induction n with
  | zero => rfl
  | succ n ih =>
    rw [List.replicate_succ, ← List.singleton_append, escaped_append, ih]
    unfold escaped
    rw [List.flatMap_singleton, hc, Nat.add_comm]

section SampleLong

variable {n : Nat}

theorem length_sampleLong : (sampleLong n).content.length = n + 2 := List.length_replicate

theorem width_six {k : Nat} (h : 100000 ≤ k ∧ k < 1000000) : width k = 6 := width_eq (k := 5) h

/-- What a page has beside its content and its next offset: ten less than the budget. -/
theorem base_sampleLong (hn : 100000 ≤ n ∧ n + 2 < 1000000) :
    base (sampleLong n) sampleFresh n 1026 = 1016 := by
  have hitem :
      (compact escape (itemJson (memoryPreview (sampleLong n) sampleFresh))).length = 239 := by
    have hpreview : memoryPreview (sampleLong n) sampleFresh =
        { memoryPreview (sampleLong 0) sampleFresh with contentChars := n + 2 } := by
      rw [← length_sampleLong (n := n)]
      rfl
    rw [hpreview]
    unfold itemJson
    simp only [compact, compactMembers, List.length_cons, List.length_append, List.length_nil,
      length_quote, compact_natural]
    rw [← width, width_six (by omega)]
    rfl
  have hcommit : (compact escape (nullable (sampleLong n).verifiedCommit)).length = 602 := by
    change (quoteWith escape _).length = 602
    rw [length_quote, escaped_replicate _ rfl]
  have hsource : (compact escape (provenanceJson (sampleLong n).source)).length = 46 := rfl
  have hmax : width 1026 = 4 := width_eq (k := 3) (by decide)
  unfold base frame draft
  simp only [hitem, hcommit, hsource, hmax, width_six (k := n) (by omega)]
  rfl

theorem fits_sampleLong (hn : 100000 ≤ n ∧ n + 2 < 1000000) (k : Nat) :
    Fits (sampleLong n) sampleFresh n 1026 (n + k) ↔
      min k 2 + nextLength (nextOf (sampleLong n) (n + k)) ≤ 6 := by
  have hpart : escaped (((sampleLong n).content.take (n + k)).drop n) = min k 2 := by
    change escaped (((List.replicate (n + 2) 'a').take (n + k)).drop n) = min k 2
    rw [List.take_replicate, List.drop_replicate, escaped_replicate _ rfl]
    omega
  have hmax : width 1026 = 4 := width_eq (k := 3) (by decide)
  unfold Fits
  rw [base_sampleLong hn, hpart, hmax]
  omega

/-- The last two characters fit; one does not, since the next offset takes two more than `null`
does. -/
theorem misses_sampleLong (hn : 100000 ≤ n ∧ n + 2 < 1000000) :
    Misses (sampleLong n) sampleFresh n 1026 := by
  have hlength := length_sampleLong (n := n)
  have hsome : ∀ k < 2, nextLength (nextOf (sampleLong n) (n + k)) = 6 := by
    intro k hk
    unfold nextOf
    rw [if_pos (by omega)]
    exact width_six (by omega)
  have hnone : nextOf (sampleLong n) (n + 2) = none := if_neg (by omega)
  have hfirst := fits_sampleLong hn 0
  have hone := fits_sampleLong hn 1
  have hrest := fits_sampleLong hn 2
  rw [hsome 0 (by decide)] at hfirst
  rw [hsome 1 (by decide)] at hone
  rw [hnone] at hrest
  exact ⟨by omega, hfirst.mpr (by decide), mt hone.mp (by decide),
    hlength ▸ hrest.mpr (by decide)⟩

end SampleLong

/-- A record of 100002 characters, read from its last two on: the read answers an error although
the page with both fits. -/
theorem last_page_missed :
    ¬ Pages (sampleLong 100000) sampleFresh 1026 ∧
      (∃ e, read (sampleLong 100000) sampleFresh (100000 : Nat) (1026 : Nat) = .error e) ∧
      (page (sampleLong 100000) sampleFresh 100000 1026 (sampleLong 100000).content.length
        ).sizeChars ≤ 1026 := by
  obtain ⟨n, hn⟩ : ∃ n, n = 100000 := ⟨_, rfl⟩
  rw [← hn]
  have hmisses : Misses (sampleLong n) sampleFresh n 1026 := misses_sampleLong (by omega)
  have hle : n ≤ (sampleLong n).content.length := (Nat.lt_of_succ_lt hmisses.1).le
  exact ⟨fun h => (reads_iff (by decide) hle).mp (h.reads n hle) hmisses,
    (read_stops (by decide) hle hmisses.2.1).mpr ⟨Nat.lt_of_succ_lt hmisses.1, hmisses.2.2.1⟩,
    (fits_iff _).mpr hmisses.2.2.2⟩

end MemoryNavigation

end Orqalis
