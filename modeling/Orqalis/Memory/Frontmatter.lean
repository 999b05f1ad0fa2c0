import Orqalis.Memory.Records

/-!
# The file of a memory record

What the writer makes of a record is `frontmatter`, what the reader makes of a file is
`parseRecord`. The two drift apart on the content only. `parseRecord_frontmatter` says by
how much: the reader finds `reread title content`, and takes the file for a record unless
that is empty. `reread_eq_self` and `reread_eq_nil` say when nothing is lost and when
nothing is left.
-/

namespace Orqalis

open Lib Lib.Text

/-- What follows the front matter: the heading and the content. -/
def page (title content : List Char) : List Char :=
  "\n# ".toList ++ title ++ "\n\n".toList ++ Text.rstrip content ++ ['\n']

/-- `_frontmatter`: the file of a record. -/
def frontmatter (r : DurableMemoryRecord) : List Char :=
  "---\n".toList ++ Json.dumps 0 (.obj r.metadata) ++ "\n---\n".toList ++ page r.title r.content

/-- The content under a heading. -/
def underHeading (title body : List Char) : List Char :=
  let content := Text.strip body
  let heading := "# ".toList ++ title
  if heading <+: content then Text.strip (content.drop heading.length) else content

/-- `_parse_record`: the record a file holds. The title is looked up before the document is
validated; one that is no text fails there. -/
def parseRecord (name : String) (file : List Char) : Except Error DurableMemoryRecord :=
  let text := newlines file
  if "---\n".toList <+: text then
    match splitOnce "\n---\n".toList (text.drop 4) with
    | some (raw, body) =>
      match Json.loads raw with
      | some (.obj ms) =>
        let title := (member ms "title" >>= textValue).getD []
        match DurableMemoryRecord.validate ms (underHeading title body) with
        | some r => .ok r
        | none => .error (.input "DurableMemoryRecord")
      | some _ => .error (.input ("Memory frontmatter must be an object: " ++ name))
      | none => .error (.input ("Invalid memory frontmatter: " ++ name))
    | none => .error (.input ("Invalid memory frontmatter: " ++ name))
  else .error (.input ("Invalid memory frontmatter: " ++ name))

/-- The content that is read back from the file of a record with a title and a content. -/
def reread (title content : List Char) : List Char :=
  underHeading title (newlines (page title content))

/-- A record's file is the record again, with the content that is read back. -/
theorem parseRecord_frontmatter (name : String) (r : DurableMemoryRecord) :
    parseRecord name (frontmatter r) =
      if h : reread r.title r.content ≠ [] then .ok (r.withContent _ h)
      else .error (.input "DurableMemoryRecord") := by
  have hcalm := Json.calm_dumps 0 (.obj r.metadata)
  have htext : newlines (frontmatter r) = "---\n".toList ++ (Json.dumps 0 (.obj r.metadata) ++
      '\n' :: '-' :: ("--\n".toList ++ newlines (page r.title r.content))) := by
    have hreturn : '\r' ∉ "---\n".toList ++ Json.dumps 0 (.obj r.metadata) ++
        "\n---\n".toList := by
      simpa using hcalm.1
    rw [frontmatter, newlines_append hreturn]
    simp
  have hinitial : "---\n".toList <+: newlines (frontmatter r) := htext ▸ List.prefix_append _ _
  have hsplit : splitOnce "\n---\n".toList ((newlines (frontmatter r)).drop 4) =
      some (Json.dumps 0 (.obj r.metadata), newlines (page r.title r.content)) := by
    rw [htext]
    exact splitOnce_of_calm hcalm _ _
  have htitle : (member r.metadata "title" >>= textValue).getD [] = r.title := rfl
  simp only [parseRecord, if_pos hinitial, hsplit, Json.loads_dumps, htitle,
    DurableMemoryRecord.validate_metadata]
  rw [show underHeading r.title (newlines (page r.title r.content)) =
    reread r.title r.content from rfl]
  by_cases h : reread r.title r.content ≠ []
  · simp only [dif_pos h]
  · simp only [dif_neg h]

/-! ## What is read back -/

/-- The content as a text file gives it back. -/
def filed (content : List Char) : List Char := newlines (Text.rstrip content ++ ['\n'])

theorem blank_filed (content : List Char) : Text.blank (filed content) = Text.blank content := by
  have hend : Text.blank ['\n'] = true := rfl
  rw [filed, blank_newlines, blank_append, blank_rstrip, hend, Bool.and_true]

theorem newlines_page {title : List Char} (h : '\r' ∉ title) (content : List Char) :
    newlines (page title content) =
      '\n' :: ("# ".toList ++ title ++ ("\n\n".toList ++ filed content)) := by
  have hreturn : '\r' ∉ "\n# ".toList ++ title ++ "\n\n".toList := by simpa using h
  rw [page, List.append_assoc _ (Text.rstrip content), newlines_append hreturn]
  simp [filed]

theorem strip_line (s : List Char) : Text.strip ('\n' :: s) = Text.strip s :=
  strip_blank_append (s := ['\n']) rfl s

/-- The page stripped, when its content is blank: the heading is all there is. -/
theorem reread_of_blank {title content : List Char} (htitle : '\r' ∉ title)
    (hcontent : Text.blank content) :
    reread title content =
      if Text.rstrip ("# ".toList ++ title) = "# ".toList ++ title then []
      else Text.rstrip ("# ".toList ++ title) := by
  have hfiled : Text.blank ("\n\n".toList ++ filed content) := by
    rw [blank_append, blank_filed, hcontent]
    rfl
  have hstrip : Text.strip (newlines (page title content)) =
      Text.rstrip ("# ".toList ++ title) := by
    rw [newlines_page htitle, strip_line, strip_append_blank _ hfiled]
    exact (strip_cons (c := '#') rfl _).trans (rstrip_cons (c := '#') rfl _).symm
  unfold reread underHeading
  simp only [hstrip]
  by_cases h : Text.rstrip ("# ".toList ++ title) = "# ".toList ++ title
  · rw [h, if_pos List.prefix_rfl, if_pos rfl, List.drop_length]
    rfl
  · have hnot : ¬ ("# ".toList ++ title) <+: Text.rstrip ("# ".toList ++ title) := by
      intro hpre
      have hlength := hpre.length_le
      have hinitial : Text.rstrip ("# ".toList ++ title) <+: "# ".toList ++ title :=
        rstrip_initial _
      exact h (hinitial.eq_of_length_le hlength)
    rw [if_neg hnot, if_neg h]

/-- The content is found under the heading, without the blanks around it. -/
theorem reread_of_content {title content : List Char} (htitle : '\r' ∉ title)
    (hcontent : Text.blank content = false) :
    reread title content = Text.strip (filed content) := by
  have hfiled : Text.blank ("\n\n".toList ++ filed content) = false := by
    rw [blank_append, blank_filed, hcontent, Bool.and_false]
  have hstrip : Text.strip (newlines (page title content)) =
      "# ".toList ++ title ++ Text.rstrip ("\n\n".toList ++ filed content) := by
    rw [newlines_page htitle, strip_line, ← rstrip_append _ hfiled]
    exact (strip_cons (c := '#') rfl _).trans (rstrip_cons (c := '#') rfl _).symm
  have hblank : Text.blank "\n\n".toList := rfl
  have hrest : Text.strip (Text.rstrip ("\n\n".toList ++ filed content)) =
      Text.strip (filed content) := by
    rw [rstrip_append _ (by rw [blank_filed, hcontent]), strip_blank_append hblank, strip_rstrip]
  unfold reread underHeading
  simp only [hstrip]
  rw [if_pos (List.prefix_append _ _), List.drop_left, hrest]

/-- A carriage return in the title hides the heading: the whole page is the content. -/
theorem reread_of_return {title : List Char} (h : '\r' ∈ title) (content : List Char) :
    reread title content =
      '#' :: Text.rstrip
        (' ' :: newlines (title ++ '\n' :: '\n' :: (Text.rstrip content ++ ['\n']))) := by
  have hstrip : Text.strip (newlines (page title content)) =
      '#' :: Text.rstrip
        (' ' :: newlines (title ++ '\n' :: '\n' :: (Text.rstrip content ++ ['\n']))) := by
    have hpage : newlines (page title content) =
        '\n' :: '#' :: ' ' ::
          newlines (title ++ '\n' :: '\n' :: (Text.rstrip content ++ ['\n'])) := by
      simp [page, newlines]
    rw [hpage, strip_line, strip_cons rfl]
  have hnot : ¬ ("# ".toList ++ title) <+: Text.strip (newlines (page title content)) := by
    intro hpre
    have hmem : '\r' ∈ Text.strip (newlines (page title content)) := hpre.subset (by simp [h])
    exact notMem_newlines _ (strip_subset _ hmem)
  unfold reread underHeading
  simp only [if_neg hnot]
  exact hstrip

/-- A heading is recognised when its title ends in no blank. -/
theorem rstrip_heading {title : List Char} (h : title ≠ []) :
    Text.rstrip ("# ".toList ++ title) = "# ".toList ++ title ↔ Text.rstrip title = title := by
  by_cases hblank : Text.blank title = true
  · have hleft : Text.rstrip ("# ".toList ++ title) = ['#'] := by
      rw [rstrip_append_blank _ hblank]
      rfl
    rw [hleft, rstrip_eq_nil.mpr hblank]
    constructor
    · intro heq
      simp at heq
    · intro heq
      exact absurd heq.symm h
  · rw [rstrip_append _ (by simpa using hblank), List.append_cancel_left_eq]

/-- Nothing is left of a blank content, unless the title keeps the heading from being
recognised. -/
theorem reread_eq_nil {title content : List Char} (h : title ≠ []) :
    reread title content = [] ↔ Text.blank content ∧ '\r' ∉ title ∧ Text.rstrip title = title := by
  by_cases htitle : '\r' ∈ title
  · simp [reread_of_return htitle, htitle]
  by_cases hcontent : Text.blank content = true
  · rw [reread_of_blank htitle hcontent]
    by_cases hend : Text.rstrip title = title
    · rw [if_pos ((rstrip_heading h).mpr hend)]
      exact iff_of_true rfl ⟨hcontent, htitle, hend⟩
    · have hnil : Text.rstrip ("# ".toList ++ title) ≠ [] := by
        rw [ne_eq, rstrip_eq_nil]
        simp [Text.blank, space]
      rw [if_neg fun heq => hend ((rstrip_heading h).mp heq)]
      simp only [hnil, hend, and_false]
  · have hfalse : Text.blank content = false := by simpa using hcontent
    rw [reread_of_content htitle hfalse, strip_eq_nil, blank_filed, hfalse]
    simp

/-- The content is read back as it was exactly when it has no blanks around it and neither
it nor the title has a carriage return. -/
theorem reread_eq_self {title content : List Char} (hcontent : content ≠ []) :
    reread title content = content ↔
      '\r' ∉ title ∧ '\r' ∉ content ∧ Text.strip content = content := by
  by_cases htitle : '\r' ∈ title
  · -- The whole page is longer than the content in it.
    refine iff_of_false (fun h => ?_) (fun h => h.1 htitle)
    have hpage := reread_of_return htitle content
    have hstripped : Text.strip content = content := by
      rw [← h, hpage]
      exact (strip_cons rfl _).trans (by rw [rstrip_rstrip])
    have hreturn : '\r' ∉ content := by
      rw [← h, hpage]
      intro hmem
      rcases List.mem_cons.mp hmem with hmem | hmem
      · exact absurd hmem (by decide)
      · rcases List.mem_cons.mp ((rstrip_initial _).subset hmem) with hmem | hmem
        · exact absurd hmem (by decide)
        · exact notMem_newlines _ hmem
    have hline : newlines ('\n' :: (content ++ ['\n'])) = '\n' :: (content ++ ['\n']) :=
      newlines_eq_self (by simpa using hreturn)
    have hfilled : Text.blank ('\n' :: content) = false := by
      have := blank_strip (s := content) (by rwa [hstripped])
      rw [hstripped] at this
      simpa [Text.blank, space] using this
    have hlong : reread title content =
        '#' :: ' ' :: (newlines (title ++ ['\n']) ++ '\n' :: content) := by
      have hsplit : ' ' :: (newlines (title ++ ['\n']) ++ '\n' :: (content ++ ['\n'])) =
          ' ' :: newlines (title ++ ['\n']) ++ '\n' :: content ++ ['\n'] := by simp
      have hend : Text.rstrip ('\n' :: content) = '\n' :: content := by
        have hcontent : Text.blank content = false := by simpa [Text.blank, space] using hfilled
        have := rstrip_append ['\n'] hcontent
        rw [rstrip_of_strip hstripped] at this
        exact this
      rw [hpage, rstrip_of_strip hstripped, newlines_append_line, hline, hsplit,
        rstrip_append_blank _ rfl, rstrip_append _ hfilled, hend]
      rfl
    have hlength := congrArg List.length (h.symm.trans hlong)
    simp at hlength
    omega
  by_cases hblank : Text.blank content = true
  · have hstrip : Text.strip content ≠ content := by
      rw [strip_eq_nil.mpr hblank]
      exact hcontent.symm
    refine iff_of_false (fun h => ?_) (fun h => hstrip h.2.2)
    have hpage := reread_of_blank htitle hblank
    rw [h] at hpage
    split at hpage
    · exact hcontent hpage
    · have hhead : '#' ∈ content := by
        rw [hpage]
        have := rstrip_cons (c := '#') rfl (' ' :: title)
        exact this ▸ List.mem_cons_self
      exact absurd (List.all_eq_true.mp hblank _ hhead) (by decide)
  · have hfalse : Text.blank content = false := by simpa using hblank
    rw [reread_of_content htitle hfalse]
    constructor
    · intro h
      refine ⟨htitle, ?_, ?_⟩
      · rw [← h]
        exact fun hmem => notMem_newlines _ (strip_subset _ hmem)
      · rw [← h, strip_strip]
    · rintro ⟨-, hreturn, hstrip⟩
      have hline : newlines (content ++ ['\n']) = content ++ ['\n'] :=
        newlines_eq_self (by simpa using hreturn)
      rw [filed, rstrip_of_strip hstrip, hline, strip_append_blank _ rfl, hstrip]

theorem strip_reread (title content : List Char) :
    Text.strip (reread title content) = reread title content := by
  unfold reread underHeading
  dsimp only
  split <;> rw [strip_strip]

/-- What was read back once is read back again as something. -/
theorem reread_reread {title content : List Char} (htitle : title ≠ [])
    (h : reread title content ≠ []) : reread title (reread title content) ≠ [] := by
  intro hnil
  have hblank := ((reread_eq_nil htitle).mp hnil).1
  have hfalse := blank_strip (s := reread title content) (by rwa [strip_reread])
  rw [strip_reread, hblank] at hfalse
  exact absurd hfalse (by decide)

end Orqalis
