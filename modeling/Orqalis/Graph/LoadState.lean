import Orqalis.Graph.Contracts
import Orqalis.Lib.Outcome
import Orqalis.Lib.System
import Orqalis.Persistence.Encoding

/-!
# Loading the stored graph

A stored graph is two files: the graph, and a manifest with the digest of the graph's canonical
form. A load that finds them in agreement remembers the digest of the bytes it read beside the
digest of their canonical form, and the next load that reads the same bytes does not make the
canonical form again. A graph without the time it was made gets the present one, so its canonical
form is another one each time, and nothing is remembered of it.

What is remembered never changes what a load returns (`loads_agree`).
-/

namespace Orqalis

open Lib Lib.Json Lib.Utf8 Lib.Fields Lib.Outcome

namespace GraphFile

/-! ## The files -/

/-- What keeps a load from a stored graph. -/
inductive Failure
  | policyDenied (message : String)
  | os
  | format
  | validation
deriving DecidableEq, Repr

/-- What one load sees: whether each path is a file, what reading it comes to, and what the clock
reads while each document is validated. -/
structure Seen (Instant : Type) where
  manifestIsFile : Bool
  graphIsFile : Bool
  manifest : Except Failure (List UInt8)
  graph : Except Failure (List UInt8)
  manifestNow : Instant
  graphNow : Instant

variable {F Instant : Type} (floats : Floats F) (V : Validation F Instant)
  (sha256 : List UInt8 → Str) (parserVersion : Str)

/-- `GRAPH_SCHEMA_VERSION` -/
def graphSchemaVersion : Int := 1

/-- The object that bytes hold. -/
def decodeObject (content : List UInt8) : Except Failure (Members F) :=
  match Filesystem.decodeJson floats content with
  | .ok (.obj ms) => .ok ms
  | _ => .error .format

/-- `read_json_object` -/
def readJsonObject (file : Except Failure (List UInt8)) : Except Failure (Members F) := do
  decodeObject floats (← file)

/-- `read_json_object_with_sha256` -/
def readJsonObjectWithSha256 (file : Except Failure (List UInt8)) :
    Except Failure (Members F × Str) := do
  let content ← file
  let value ← decodeObject floats content
  return (value, sha256 content)

/-- `_graph_payload` -/
def graphPayload (graph : ProjectGraph F Instant) : Except Failure (List UInt8) :=
  match ((graph.dump V).sorted).spell floats with
  | some j => .ok (encodeText (compact escape j))
  | none => .error .format

/-- `_graph_digest` -/
def graphDigest (graph : ProjectGraph F Instant) : Except Failure Str :=
  (graphPayload floats V graph).map sha256

/-! ## A load -/

/-- The digest of the bytes of a graph, and of its canonical form. -/
abbrev Proof := Str × Str

/-- What a load has read: the two documents, both digests of the graph, and whether the graph says
when it was made. -/
structure Loaded (F Instant : Type) where
  manifest : GraphManifest Instant
  graph : ProjectGraph F Instant
  rawDigest : Str
  graphDigest : Str
  eligible : Bool

/-- A document that passes its checks, or the failure to. -/
def validated {α : Type} : Option α → Except Failure α
  | some x => .ok x
  | none => .error .validation

/-- The digest of a graph: the remembered one, where the bytes are those it was made of. -/
def digestWith (proof : Option Proof) (eligible : Bool) (rawDigest : Str)
    (graph : ProjectGraph F Instant) : Except Failure Str :=
  match proof with
  | some p => if eligible ∧ p.1 = rawDigest then .ok p.2 else graphDigest floats V sha256 graph
  | none => graphDigest floats V sha256 graph

/-- A graph that was read beside its manifest: its document, and the digest of its bytes. -/
def readGraph (proof : Option Proof) (now : Instant) (manifest : GraphManifest Instant)
    (document : Members F) (rawDigest : Str) : Except Failure (Loaded F Instant) := do
  let eligible := (Fields.member document "generated_at").isSome
  let graph ← validated (ProjectGraph.validate V now document)
  let digest ← digestWith floats V sha256 proof eligible rawDigest graph
  return ⟨manifest, graph, rawDigest, digest, eligible⟩

/-- The two documents, read and checked one after the other. -/
def readState (proof : Option Proof) (seen : Seen Instant) : Except Failure (Loaded F Instant) := do
  let manifest ← readJsonObject floats seen.manifest
  let manifest ← validated (GraphManifest.validate V seen.manifestNow manifest)
  let (document, rawDigest) ← readJsonObjectWithSha256 floats sha256 seen.graph
  readGraph floats V sha256 proof seen.graphNow manifest document rawDigest

/-- Whether the two documents are of these versions and of each other. -/
def Loaded.current (parserVersion : Str) (l : Loaded F Instant) : Bool :=
  l.manifest.schemaVersion = graphSchemaVersion ∧ l.graph.schemaVersion = graphSchemaVersion ∧
    l.manifest.parserVersion = parserVersion ∧ l.graph.parserVersion = parserVersion ∧
    l.manifest.graphSha256 = l.graphDigest

/-- What a load returns: the documents or no usable state, unless a policy denies the files. -/
abbrev Result (F Instant : Type) :=
  Except Failure (Option (GraphManifest Instant × ProjectGraph F Instant))

/-- What a load returns of what it has read, and what it remembers. -/
def concluded (parserVersion : Str) :
    Except Failure (Loaded F Instant) → Result F Instant × Option Proof
  | .error (.policyDenied message) => (.error (.policyDenied message), none)
  | .error _ => (.ok none, none)
  | .ok l =>
    if l.current parserVersion then
      (.ok (some (l.manifest, l.graph)),
        if l.eligible then some (l.rawDigest, l.graphDigest) else none)
    else (.ok none, none)

/-- `_load_state`: what is remembered, what is seen, what is returned and what is remembered
then. -/
def loadState (proof : Option Proof) (seen : Seen Instant) : Result F Instant × Option Proof :=
  if seen.manifestIsFile ∧ seen.graphIsFile then
    concluded parserVersion (readState floats V sha256 proof seen)
  else (.ok none, none)

/-- A load that remembers nothing. -/
def loadAfresh (seen : Seen Instant) : Result F Instant :=
  (loadState floats V sha256 parserVersion none seen).1

variable {floats V sha256 parserVersion} {content : List UInt8} {proof : Option Proof}
  {seen : Seen Instant} {l : Loaded F Instant}

/-! ## What is remembered -/

/-- Whether bytes hold a graph that says when it was made, and a digest is that of its canonical
form whenever it is read. -/
def Vouched (floats : Floats F) (V : Validation F Instant) (sha256 : List UInt8 → Str)
    (content : List UInt8) (digest : Str) : Prop :=
  ∀ ms, decodeObject floats content = .ok ms → ∀ now graph,
    ProjectGraph.validate V now ms = some graph → graphDigest floats V sha256 graph = .ok digest

/-- Whether what is remembered is true of bytes among those of some files. -/
def Sound (floats : Floats F) (V : Validation F Instant) (sha256 : List UInt8 → Str)
    (files : List (List UInt8)) (proof : Option Proof) : Prop :=
  ∀ p ∈ proof, ∃ content ∈ files, sha256 content = p.1 ∧ Vouched floats V sha256 content p.2

/-- Whether no two of some files have one digest. -/
def CollisionFree (sha256 : List UInt8 → Str) (files : List (List UInt8)) : Prop :=
  ∀ a ∈ files, ∀ b ∈ files, sha256 a = sha256 b → a = b

/-- The bytes of the graph that some loads see. -/
def graphFiles (inputs : List (Seen Instant)) : List (List UInt8) :=
  inputs.filterMap fun seen => seen.graph.toOption

theorem validated_eq_ok {α : Type} {o : Option α} {x : α} :
    validated o = .ok x ↔ o = some x := by
  cases o <;> simp [validated]

theorem readJsonObjectWithSha256_eq_ok {file : Except Failure (List UInt8)} {ms : Members F}
    {digest : Str} : readJsonObjectWithSha256 floats sha256 file = .ok (ms, digest) ↔
      ∃ content, file = .ok content ∧ decodeObject floats content = .ok ms ∧
        sha256 content = digest := by
  unfold readJsonObjectWithSha256
  cases file with
  | error e => simp [bind, Except.bind]
  | ok content =>
    cases hdecode : decodeObject floats content with
    | error e => simp [bind, Except.bind, hdecode]
    | ok ms' => simp [bind, Except.bind, hdecode, pure, Except.pure]

theorem mem_graphFiles {inputs : List (Seen Instant)} (hseen : seen ∈ inputs)
    (h : seen.graph = .ok content) : content ∈ graphFiles inputs :=
  List.mem_filterMap.mpr ⟨seen, hseen, by rw [h]; rfl⟩

/-- What a load that came to its end has read. -/
theorem readState_eq_ok (h : readState floats V sha256 proof seen = .ok l) :
    ∃ content ms, seen.graph = .ok content ∧ decodeObject floats content = .ok ms ∧
      sha256 content = l.rawDigest ∧ (Fields.member ms "generated_at").isSome = l.eligible ∧
      ProjectGraph.validate V seen.graphNow ms = some l.graph ∧
      digestWith floats V sha256 proof l.eligible l.rawDigest l.graph = .ok l.graphDigest := by
  obtain ⟨_, -, h⟩ := bind_eq_ok.mp h
  obtain ⟨manifest, -, h⟩ := bind_eq_ok.mp h
  obtain ⟨⟨ms, rawDigest⟩, hread, h⟩ := bind_eq_ok.mp h
  obtain ⟨graph, hgraph, h⟩ := bind_eq_ok.mp h
  obtain ⟨digest, hdigest, h⟩ := bind_eq_ok.mp h
  obtain ⟨content, hfile, hdecode, hraw⟩ := readJsonObjectWithSha256_eq_ok.mp hread
  cases h
  exact ⟨content, ms, hfile, hdecode, hraw, rfl, validated_eq_ok.mp hgraph, hdigest⟩

/-- The remembered digest of a graph is the digest of the graph. -/
theorem digestWith_eq {files : List (List UInt8)} {ms : Members F} {now : Instant}
    {graph : ProjectGraph F Instant} (hfree : CollisionFree sha256 files)
    (hsound : Sound floats V sha256 files proof) (hmem : content ∈ files)
    (hdecode : decodeObject floats content = .ok ms)
    (hgraph : ProjectGraph.validate V now ms = some graph) (eligible : Bool) :
    digestWith floats V sha256 proof eligible (sha256 content) graph =
      graphDigest floats V sha256 graph := by
  cases proof with
  | none => rfl
  | some p =>
    unfold digestWith
    dsimp only
    split_ifs with hp
    · obtain ⟨content', hmem', hdigest, hvouched⟩ := hsound p rfl
      have hsame : content' = content := hfree _ hmem' _ hmem (hdigest.trans hp.2)
      subst hsame
      exact (hvouched ms hdecode now graph hgraph).symm
    · rfl

/-- A load reads the same with what it remembers as without. -/
theorem readState_eq {inputs : List (Seen Instant)}
    (hfree : CollisionFree sha256 (graphFiles inputs))
    (hsound : Sound floats V sha256 (graphFiles inputs) proof) (hseen : seen ∈ inputs) :
    readState floats V sha256 proof seen = readState floats V sha256 none seen := by
  unfold readState
  refine bind_congr fun _ => bind_congr fun manifest => ?_
  cases hread : readJsonObjectWithSha256 floats sha256 seen.graph with
  | error e => rfl
  | ok read =>
    obtain ⟨ms, rawDigest⟩ := read
    obtain ⟨content, hfile, hdecode, rfl⟩ := readJsonObjectWithSha256_eq_ok.mp hread
    show readGraph floats V sha256 proof seen.graphNow manifest ms (sha256 content) =
      readGraph floats V sha256 none seen.graphNow manifest ms (sha256 content)
    unfold readGraph
    cases hgraph : ProjectGraph.validate V seen.graphNow ms with
    | none => rfl
    | some graph =>
      simp only [validated, ok_bind,
        digestWith_eq hfree hsound (mem_graphFiles hseen hfile) hdecode hgraph]
      rfl

/-- What a load remembers is true. -/
theorem sound_loadState {inputs : List (Seen Instant)}
    (hfree : CollisionFree sha256 (graphFiles inputs))
    (hsound : Sound floats V sha256 (graphFiles inputs) proof) (hseen : seen ∈ inputs) :
    Sound floats V sha256 (graphFiles inputs)
      (loadState floats V sha256 parserVersion proof seen).2 := by
  have hnone : Sound floats V sha256 (graphFiles inputs) none := by
    intro p hp
    cases hp
  unfold loadState
  split_ifs
  · cases hread : readState floats V sha256 proof seen with
    | error e => cases e <;> exact hnone
    | ok l =>
      unfold concluded
      dsimp only
      split_ifs with hcurrent heligible
      · intro p hp
        cases hp
        rw [readState_eq hfree hsound hseen] at hread
        obtain ⟨content, ms, hfile, hdecode, hraw, hthere, hgraph, hdigest⟩ := readState_eq_ok hread
        refine ⟨content, mem_graphFiles hseen hfile, hraw, ?_⟩
        intro ms' hdecode' now graph' hgraph'
        have hms : ms = ms' := Except.ok.inj (hdecode.symm.trans hdecode')
        subst hms
        rw [ProjectGraph.validate_of_generatedAt V (hthere.trans heligible) now seen.graphNow,
          hgraph] at hgraph'
        cases hgraph'
        exact hdigest
      · exact hnone
      · exact hnone
  · exact hnone

/-- A load returns the same with what it remembers as without. -/
theorem loadState_agrees {inputs : List (Seen Instant)}
    (hfree : CollisionFree sha256 (graphFiles inputs))
    (hsound : Sound floats V sha256 (graphFiles inputs) proof) (hseen : seen ∈ inputs) :
    (loadState floats V sha256 parserVersion proof seen).1 =
      loadAfresh floats V sha256 parserVersion seen := by
  unfold loadAfresh loadState
  rw [readState_eq hfree hsound hseen]

/-- Loads return the same whether or not they remember what earlier ones found. -/
theorem loads_agree (inputs : List (Seen Instant))
    (hfree : CollisionFree sha256 (graphFiles inputs)) :
    System.answers (loadState floats V sha256 parserVersion) none inputs =
      inputs.map (loadAfresh floats V sha256 parserVersion) := by
  refine System.answers_eq_map (I := Sound floats V sha256 (graphFiles inputs)) ?_ ?_
  · intro proof hsound seen hseen
    exact ⟨loadState_agrees hfree hsound hseen, sound_loadState hfree hsound hseen⟩
  · intro p hp
    cases hp

/-! ## Loads that overlap -/

/-- A load begins by taking what is remembered, and ends by putting what it remembers in its
place. -/
inductive Event (Instant : Type)
  | begun (load : Nat)
  | ended (load : Nat) (seen : Seen Instant)

/-- What is remembered, and what each load has taken of it. -/
structure Memory where
  proof : Option Proof
  taken : Nat → Option Proof

/-- A load begins or ends, while others may be under way. -/
def Memory.on (floats : Floats F) (V : Validation F Instant) (sha256 : List UInt8 → Str)
    (parserVersion : Str) (m : Memory) : Event Instant → Option (Result F Instant) × Memory
  | .begun load =>
    (none, { m with taken := fun k => if k = load then m.proof else m.taken k })
  | .ended load seen =>
    let ended := loadState floats V sha256 parserVersion (m.taken load) seen
    (some ended.1, { m with proof := ended.2 })

/-- What an event sees. -/
def Event.seen? : Event Instant → Option (Seen Instant)
  | begun _ => none
  | ended _ seen => some seen

/-- Nothing is remembered, and nothing taken. -/
def Memory.empty : Memory := ⟨none, fun _ => none⟩

/-- Loads that overlap return the same whether or not they remember what others found. -/
theorem overlapping_loads_agree (events : List (Event Instant))
    (hfree : CollisionFree sha256 (graphFiles (events.filterMap Event.seen?))) :
    System.answers (Memory.on floats V sha256 parserVersion) Memory.empty events =
      events.map fun e => e.seen?.map (loadAfresh floats V sha256 parserVersion) := by
  have hnone : Sound floats V sha256 (graphFiles (events.filterMap Event.seen?)) none := by
    intro p hp
    cases hp
  refine System.answers_eq_map (I := fun m : Memory =>
    Sound floats V sha256 (graphFiles (events.filterMap Event.seen?)) m.proof ∧
      ∀ load, Sound floats V sha256 (graphFiles (events.filterMap Event.seen?)) (m.taken load))
    ?_ ⟨hnone, fun _ => hnone⟩
  rintro m ⟨hproof, htaken⟩ (load | ⟨load, seen⟩) he
  · refine ⟨rfl, hproof, fun k => ?_⟩
    show Sound floats V sha256 _ (if k = load then m.proof else m.taken k)
    split_ifs
    · exact hproof
    · exact htaken k
  · have hseen : seen ∈ events.filterMap Event.seen? := List.mem_filterMap.mpr ⟨_, he, rfl⟩
    refine ⟨congrArg some ?_, sound_loadState hfree (htaken load) hseen, htaken⟩
    show (loadState floats V sha256 parserVersion (m.taken load) seen).1 = _
    exact loadState_agrees hfree (htaken load) hseen

/-! ## Two files -/

/-- Strings and numbers as they stand. -/
def plainValidation (F : Type) : Validation F Str where
  int v := match v with
    | .int n => some n
    | _ => none
  float v := match v with
    | .float x => some x
    | _ => none
  unit _ := true
  str v := match v with
    | .str s => some s
    | _ => none
  constrained v := match v with
    | .str s => some s
    | _ => none
  instant v := match v with
    | .str s => some s
    | _ => none
  isoformat := id

/-- A graph that leaves its nodes and edges out. -/
def graphText : List Char :=
  "\x7b\"generated_at\":\"2026-01-01T00:00:00Z\",\"parser_version\":\"v\"\x7d".toList

/-- The graph with every field. -/
def canonicalText : List Char :=
  "\x7b\"edges\":[],\"generated_at\":\"2026-01-01T00:00:00Z\",\"nodes\":[],".toList ++
    "\"parser_version\":\"v\",\"schema_version\":1\x7d".toList

/-- A later graph. -/
def editedText : List Char :=
  "\x7b\"generated_at\":\"2026-01-01T00:00:00Z\",\"parser_version\":\"w\"\x7d".toList

/-- The manifest of the graph. -/
def manifestText : List Char :=
  "\x7b\"graph_sha256\":".toList ++
    "\"b0156cef8eff0d348010155571bba5bb34594f690544d87d5481b15eb61d2793\"".toList ++
    ",\"parser_version\":\"v\"\x7d".toList

/-- The digests of the graphs. -/
def digests (content : List UInt8) : Str :=
  if content = encodeText graphText then
    codes "55daca7291e0d346d7fa214d5d48bcc1c4e88106811cbb0e7d63d53ff6ce4cb4"
  else if content = encodeText canonicalText then
    codes "b0156cef8eff0d348010155571bba5bb34594f690544d87d5481b15eb61d2793"
  else codes "e2f9bd5da6241060882085a288e8c0ecce23ed6d5861e85db66c59b69010288d"

/-- The manifest beside one of the graphs. -/
def beside (graphText : List Char) : Seen Str :=
  ⟨true, true, .ok (encodeText manifestText), .ok (encodeText graphText),
    codes "2026-01-02T00:00:00Z", codes "2026-01-02T00:00:00Z"⟩

/-- The two graphs have different digests. -/
theorem digests_edited : digests (encodeText graphText) ≠ digests (encodeText editedText) := by
  have hgraph : digests (encodeText graphText) =
      codes "55daca7291e0d346d7fa214d5d48bcc1c4e88106811cbb0e7d63d53ff6ce4cb4" := if_pos rfl
  have hother : encodeText editedText ≠ encodeText graphText := fun h =>
    absurd (encodeText_injective h) (by decide)
  have hform : encodeText editedText ≠ encodeText canonicalText := fun h =>
    absurd (encodeText_injective h) (by decide)
  have hedited : digests (encodeText editedText) =
      codes "e2f9bd5da6241060882085a288e8c0ecce23ed6d5861e85db66c59b69010288d" :=
    (if_neg hother).trans (if_neg hform)
  rw [hgraph, hedited]
  decide

theorem loads_agree_edited :
    System.answers (loadState Filesystem.spelledFloats (plainValidation _) digests (codes "v")) none
        [beside graphText, beside graphText, beside editedText] =
      [beside graphText, beside graphText, beside editedText].map
        (loadAfresh Filesystem.spelledFloats (plainValidation _) digests (codes "v")) := by
  apply loads_agree
  have hfiles : graphFiles [beside graphText, beside graphText, beside editedText] =
      [encodeText graphText, encodeText graphText, encodeText editedText] := rfl
  rw [hfiles]
  unfold CollisionFree
  simp only [List.mem_cons, List.not_mem_nil, or_false, or_self_left]
  rintro a (rfl | rfl) b (rfl | rfl) h
  · rfl
  · exact absurd h digests_edited
  · exact absurd h.symm digests_edited
  · rfl

end GraphFile

end Orqalis
