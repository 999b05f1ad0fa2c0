import Orqalis.Graph.Assemble
import Orqalis.Lib.Folds

/-!
# What the assembled graph links

Which edges the two passes make. The first makes definitions only, and finds a module's name at
the last file that has it; the import edges are those of the imports that are parsed of the files
(`imports_iff`).
-/

namespace Orqalis

open Lib

namespace ProjectGraphEngine

variable {T : Texts} {edges : Edges} {s t s' t' : String} {r r' : GraphRelation}

/-! ## Edges -/

/-- Whether an edge leads from a node to another. -/
def Linked (edges : Edges) (s t : String) (r : GraphRelation) : Prop :=
  ∃ e ∈ edges, e.sourceId = s ∧ e.targetId = t ∧ e.relation = r

theorem linked_empty : ¬ Linked (Table.empty : Edges) s t r := by
  rintro ⟨e, he, -⟩
  cases he

/-- An edge that is added is there, beside those that were. -/
theorem linked_addEdge (p : GraphProvenance) (c : Rat) (place : String) (b x : Option String) :
    Linked (addEdge edges s' t' r' p c place b x) s t r ↔
      Linked edges s t r ∨ (s' = s ∧ t' = t ∧ r' = r) := by
  unfold addEdge Linked
  constructor
  · rintro ⟨e, he, hs, ht, hr⟩
    rcases Table.mem_put.mp he with rfl | ⟨he, -⟩
    · exact .inr ⟨hs, ht, hr⟩
    · exact .inl ⟨e, he, hs, ht, hr⟩
  · rintro (⟨e, he, rfl, rfl, rfl⟩ | ⟨rfl, rfl, rfl⟩)
    · by_cases hkey : e.key = (s', t', r', p)
      · cases hkey
        exact ⟨_, Table.mem_put_self _ _, rfl, rfl, rfl⟩
      · exact ⟨e, Table.mem_put.mpr (.inr ⟨he, hkey⟩), rfl, rfl, rfl⟩
    · exact ⟨_, Table.mem_put_self _ _, rfl, rfl, rfl⟩

/-- An edge of another relation is no such edge. -/
theorem linked_addEdge_of_ne (h : r' ≠ r) (p : GraphProvenance) (c : Rat) (place : String)
    (b x : Option String) :
    Linked (addEdge edges s' t' r' p c place b x) s t r ↔ Linked edges s t r := by
  rw [linked_addEdge]
  exact or_iff_left fun hsame => h hsame.2.2

theorem linked_addDefinition (h : GraphRelation.defines ≠ r) (place : String) :
    Linked (addDefinition edges s' t' place) s t r ↔ Linked edges s t r :=
  linked_addEdge_of_ne h _ _ _ _ _

/-! ## The first pass -/

variable (f : SourceFile) (a : Assembly)

theorem linked_addPart (h : GraphRelation.defines ≠ r) (node : GraphNode) :
    Linked (addPart T f a node).edges s t r ↔ Linked a.edges s t r :=
  linked_addDefinition h _

/-- Symbols change neither the edges nor the modules. -/
theorem foldl_addSymbol (symbols : List SymbolSpec) :
    (symbols.foldl (addSymbol T f) a).edges = a.edges ∧
      (symbols.foldl (addSymbol T f) a).moduleIds = a.moduleIds :=
  foldl_keeps (f := addSymbol T f)
    (P := fun b : Assembly => b.edges = a.edges ∧ b.moduleIds = a.moduleIds)
    (fun _ _ _ hb => hb) ⟨rfl, rfl⟩

theorem linked_addModule (h : GraphRelation.defines ≠ r) :
    Linked (addModule T f a).edges s t r ↔ Linked a.edges s t r := by
  unfold addModule
  split_ifs
  · dsimp only
    refine foldl_keeps (P := fun edges => Linked edges s t r ↔ Linked a.edges s t r) ?_ ?_
    · intro edges symbol _ hedges
      exact (linked_addDefinition h _).trans hedges
    · rw [(foldl_addSymbol f _ _).1]
      exact linked_addDefinition h _
  · exact Iff.rfl

theorem linked_addRole (h : GraphRelation.defines ≠ r) :
    Linked (addRole T f a).edges s t r ↔ Linked a.edges s t r := by
  unfold addRole
  by_cases hconfiguration : fileRole T f.path = "configuration"
  · simp only [if_pos hconfiguration, linked_addPart f a h]
  · by_cases hdocumentation : fileRole T f.path = "documentation"
    · simp only [if_neg hconfiguration, if_pos hdocumentation, linked_addPart f a h]
    · simp only [if_neg hconfiguration, if_neg hdocumentation]

theorem linked_addSuite (h : GraphRelation.defines ≠ r) :
    Linked (addSuite T f a).edges s t r ↔ Linked a.edges s t r := by
  unfold addSuite
  split_ifs
  · exact linked_addPart f a h _
  · exact Iff.rfl

/-- A file brings definitions only. -/
theorem linked_addFile (h : GraphRelation.defines ≠ r) :
    Linked (addFile T a f).edges s t r ↔ Linked a.edges s t r :=
  (linked_addSuite f _ h).trans ((linked_addRole f _ h).trans (linked_addModule f _ h))

/-- The first pass makes definitions only. -/
theorem not_linked_assembly (sources : Sources) (h : GraphRelation.defines ≠ r) :
    ¬ Linked (assembly T sources).edges s t r := by
  have hkept : Linked (assembly T sources).edges s t r ↔ Linked (Table.empty : Edges) s t r :=
    foldl_keeps (P := fun b : Assembly => Linked b.edges s t r ↔ Linked (Table.empty : Edges) s t r)
      (fun b f _ hb => (linked_addFile f b h).trans hb) Iff.rfl
  rw [hkept]
  exact linked_empty

/-- A file's module is found under its name. -/
theorem moduleIds_addFile : (addFile T a f).moduleIds =
    if f.isCode then a.moduleIds.put (f.moduleName, moduleId T f) else a.moduleIds := by
  have hsuite : ∀ b : Assembly, (addSuite T f b).moduleIds = b.moduleIds := by
    intro b
    unfold addSuite
    split_ifs <;> rfl
  have hrole : ∀ b : Assembly, (addRole T f b).moduleIds = b.moduleIds := by
    intro b
    unfold addRole
    dsimp only
    split_ifs <;> rfl
  unfold addFile
  rw [hsuite, hrole]
  unfold addModule
  split_ifs
  · exact (foldl_addSymbol f _ _).2
  · rfl

variable {f a} {sources : Sources} {name id : String}

/-- The modules by their names. -/
theorem moduleIds_assembly (sources : Sources) : (assembly T sources).moduleIds =
    Table.ofList ((sources.files.filter SourceFile.isCode).map fun f =>
      (f.moduleName, moduleId T f)) := by
  unfold assembly Table.ofList
  rw [foldl_project (g := fun (d : Dict String) f =>
    if f.isCode then d.put (f.moduleName, moduleId T f) else d) fun b f => moduleIds_addFile f b]
  rw [List.foldl_map, List.foldl_filter]

/-- Whether a file is the last one of its module's name. -/
def LastOfName (sources : Sources) (g : SourceFile) : Prop :=
  ∀ h ∈ sources.files, h.isCode → h.moduleName = g.moduleName → h.path ≤ g.path

/-- A module's name is found at the last file that has it. -/
theorem find_moduleIds : (assembly T sources).moduleIds.find name = some id ↔
    ∃ g ∈ sources.files, g.isCode ∧ g.moduleName = name ∧ moduleId T g = id ∧
      LastOfName sources g := by
  have hsorted : (sources.files.filter SourceFile.isCode).Pairwise fun g h => g.path < h.path :=
    (List.pairwise_map.mp sources.sorted).filter _
  unfold Dict.find
  rw [moduleIds_assembly, Option.map_eq_some_iff]
  constructor
  · rintro ⟨x, hx, rfl⟩
    obtain ⟨before, after, hl, hname, hafter⟩ := Table.get?_ofList_eq_some.mp hx
    obtain ⟨fs, rest, hfs, rfl, hrest⟩ := List.map_eq_append_iff.mp hl
    obtain ⟨g, gs, rfl, rfl, rfl⟩ := List.map_eq_cons_iff.mp hrest
    have hg : g ∈ sources.files.filter SourceFile.isCode := by simp [hfs]
    refine ⟨g, (List.mem_filter.mp hg).1, (List.mem_filter.mp hg).2, hname, rfl, ?_⟩
    intro h hh hcode hsame
    have hmem : h ∈ sources.files.filter SourceFile.isCode := List.mem_filter.mpr ⟨hh, hcode⟩
    rw [hfs] at hmem hsorted
    rcases List.mem_append.mp hmem with hbefore | hmem
    · exact le_of_lt ((List.pairwise_append.mp hsorted).2.2 h hbefore g List.mem_cons_self)
    · rcases List.mem_cons.mp hmem with rfl | hgs
      · exact le_rfl
      · exact absurd (hsame.trans hname) (hafter _ (List.mem_map_of_mem hgs))
  · rintro ⟨g, hg, hcode, rfl, rfl, hlast⟩
    refine ⟨(g.moduleName, moduleId T g), Table.get?_ofList_eq_some.mpr ?_, rfl⟩
    obtain ⟨fs, gs, hfs⟩ := List.append_of_mem (List.mem_filter.mpr ⟨hg, hcode⟩)
    refine ⟨_, _, by rw [hfs, List.map_append, List.map_cons], rfl, ?_⟩
    intro y hy hsame
    obtain ⟨h, hh, rfl⟩ := List.mem_map.mp hy
    have hmem : h ∈ sources.files.filter SourceFile.isCode := by simp [hfs, hh]
    have hle := hlast h (List.mem_filter.mp hmem).1 (List.mem_filter.mp hmem).2 hsame
    rw [hfs] at hsorted
    have hlt := (List.pairwise_cons.mp (List.pairwise_append.mp hsorted).2.1).1 h hh
    exact absurd hlt (not_lt_of_ge hle)

/-- A symbol of a file is found at the last one of its name. -/
theorem find_symbolIds_iff : (symbolIds T f).find name = some id ↔
    ∃ before u after, f.parsed.symbols = before ++ u :: after ∧ u.qualifiedName = name ∧
      symbolId T f u = id ∧ ∀ v ∈ after, v.qualifiedName ≠ name := by
  unfold Dict.find symbolIds
  rw [Option.map_eq_some_iff]
  constructor
  · rintro ⟨x, hx, rfl⟩
    obtain ⟨before, after, hl, hname, hafter⟩ := Table.get?_ofList_eq_some.mp hx
    obtain ⟨us, rest, hus, rfl, hrest⟩ := List.map_eq_append_iff.mp hl
    obtain ⟨u, vs, rfl, rfl, rfl⟩ := List.map_eq_cons_iff.mp hrest
    exact ⟨us, u, vs, hus, hname, rfl, fun v hv => hafter _ (List.mem_map_of_mem hv)⟩
  · rintro ⟨before, u, after, hl, rfl, rfl, hafter⟩
    refine ⟨(u.qualifiedName, symbolId T f u), Table.get?_ofList_eq_some.mpr
      ⟨_, _, by rw [hl, List.map_append, List.map_cons], rfl, ?_⟩, rfl⟩
    intro y hy
    obtain ⟨v, hv, rfl⟩ := List.mem_map.mp hy
    exact hafter v hv

/-- What is found under a name is the node of a symbol of that qualified name. -/
theorem find_symbolIds (h : (symbolIds T f).find name = some id) :
    ∃ u ∈ f.parsed.symbols, u.qualifiedName = name ∧ id = symbolId T f u := by
  obtain ⟨before, u, after, hl, hname, rfl, -⟩ := find_symbolIds_iff.mp h
  exact ⟨u, by simp [hl], hname, rfl⟩

/-- Every symbol of a file is found. -/
theorem isSome_find_symbolIds (h : name ∈ f.parsed.symbols.map SymbolSpec.qualifiedName) :
    ((symbolIds T f).find name).isSome := by
  obtain ⟨u, hu, rfl⟩ := List.mem_map.mp h
  have hhas : (symbolIds T f).has u.qualifiedName = true :=
    Table.has_ofList (List.mem_map_of_mem hu)
  unfold Dict.find
  rw [Option.isSome_map]
  exact hhas

/-! ## The second pass -/

variable {d : Draft} {symbol : Option SymbolSpec} {item : ImportSpec}

/-- Whether an import leads from one node to another. -/
def ImportsTo (T : Texts) (a : Assembly) (f : SourceFile) (item : ImportSpec) (s t : String) :
    Prop :=
  importedName a.pathModules f item ≠ "" ∧ importerId T f item.owner = s ∧
    (a.moduleIds.find (importedName a.pathModules f item)).getD
      (externalNode T (importedName a.pathModules f item)).id = t

theorem linked_addTest (h : GraphRelation.tests ≠ r) (targetId : String) (known : Bool)
    (line : Nat) : Linked (addTest T a f edges targetId known line) s t r ↔ Linked edges s t r := by
  unfold addTest
  cases a.testSuites.find f.path with
  | none => exact Iff.rfl
  | some suite =>
    dsimp only
    split_ifs
    · exact linked_addEdge_of_ne h _ _ _ _ _
    · exact Iff.rfl

theorem linked_addImport : Linked (addImport T a f d item).edges s t .imports ↔
    Linked d.edges s t .imports ∨ ImportsTo T a f item s t := by
  unfold addImport ImportsTo
  dsimp only
  by_cases hname : importedName a.pathModules f item = ""
  · rw [if_pos hname]
    simp only [hname, ne_eq, not_true_eq_false, false_and, or_false]
  · rw [if_neg hname]
    simp only [linked_addTest (r := .imports) (by decide), linked_addEdge, ne_eq, hname,
      not_false_eq_true, true_and, and_true]

theorem linked_addExpressionEdge (h : r' ≠ r) (sourceId referenceType : String)
    (expression : String × Nat) :
    Linked (addExpressionEdge T a f symbol sourceId r' referenceType d expression).edges s t r ↔
      Linked d.edges s t r := by
  unfold addExpressionEdge
  dsimp only
  split
  · exact linked_addEdge_of_ne h _ _ _ _ _
  · exact linked_addEdge_of_ne h _ _ _ _ _

/-- Occurrences of expressions make edges of their relation only. -/
theorem linked_foldl_addExpressionEdge (h : r' ≠ r) (sourceId referenceType : String)
    (expressions : List (String × Nat)) :
    Linked (expressions.foldl (addExpressionEdge T a f symbol sourceId r' referenceType) d).edges
      s t r ↔ Linked d.edges s t r :=
  foldl_keeps (P := fun d' : Draft => Linked d'.edges s t r ↔ Linked d.edges s t r)
    (fun _ _ _ hd => (linked_addExpressionEdge h _ _ _).trans hd) Iff.rfl

theorem linked_addCalls (h : GraphRelation.calls ≠ r) (sourceId : String) (calls : List CallSpec) :
    Linked (addCalls T a f symbol sourceId calls d).edges s t r ↔ Linked d.edges s t r :=
  linked_foldl_addExpressionEdge h _ _ _

/-- What a symbol uses makes edges of its own relations only. -/
theorem linked_addUses (hcalls : GraphRelation.calls ≠ r) (hextends : GraphRelation.extends ≠ r)
    (himplements : GraphRelation.implements ≠ r) (u : SymbolSpec) :
    Linked (addUses T a f d u).edges s t r ↔ Linked d.edges s t r := by
  unfold addUses
  dsimp only
  split_ifs
  · rw [linked_foldl_addExpressionEdge himplements, linked_foldl_addExpressionEdge hextends,
      linked_addCalls hcalls]
  · exact linked_addCalls hcalls _ _

/-- A file links what its imports lead to. -/
theorem linked_linkFile : Linked (linkFile T a d f).edges s t .imports ↔
    Linked d.edges s t .imports ∨
      (f.isCode ∧ ∃ item ∈ f.parsed.imports, ImportsTo T a f item s t) := by
  unfold linkFile
  by_cases hcode : f.isCode
  · rw [if_pos hcode]
    have himports := foldl_iff (f := addImport T a f)
      (P := fun d : Draft => Linked d.edges s t .imports)
      (fun d item (_ : item ∈ f.parsed.imports) => linked_addImport) d
    have hcalls : ∀ d₀ : Draft, Linked (addCalls T a f none (moduleId T f) f.parsed.moduleCalls
        d₀).edges s t .imports ↔ Linked d₀.edges s t .imports := fun d₀ =>
      linked_addCalls (by decide) _ _
    have hsymbols : ∀ d₀ : Draft, Linked (f.parsed.symbols.foldl (addUses T a f) d₀).edges s t
        .imports ↔ Linked d₀.edges s t .imports := fun d₀ =>
      foldl_keeps (P := fun d' : Draft => Linked d'.edges s t .imports ↔ _)
        (fun _ u _ hd => (linked_addUses (by decide) (by decide) (by decide) u).trans hd) Iff.rfl
    rw [hsymbols, hcalls, himports]
    simp only [hcode, true_and]
  · rw [if_neg hcode]
    exact (or_iff_left fun himport => hcode himport.1).symm

/-- The second pass defines nothing. -/
theorem linked_linkFile_defines :
    Linked (linkFile T a d f).edges s t .defines ↔ Linked d.edges s t .defines := by
  unfold linkFile
  split_ifs
  · have himport : ∀ (d₀ : Draft) (item : ImportSpec),
        Linked (addImport T a f d₀ item).edges s t .defines ↔ Linked d₀.edges s t .defines := by
      intro d₀ item
      unfold addImport
      dsimp only
      by_cases hname : importedName a.pathModules f item = ""
      · rw [if_pos hname]
      · rw [if_neg hname]
        simp only [linked_addTest (r := .defines) (by decide),
          linked_addEdge_of_ne (by decide : GraphRelation.imports ≠ .defines)]
    dsimp only
    refine foldl_keeps (P := fun d' : Draft => Linked d'.edges s t .defines ↔ _)
      (fun _ u _ hd => (linked_addUses (by decide) (by decide) (by decide) u).trans hd) ?_
    refine (linked_addCalls (by decide) _ _).trans ?_
    exact foldl_keeps (P := fun d' : Draft => Linked d'.edges s t .defines ↔ _)
      (fun d' item _ hd => (himport d' item).trans hd) Iff.rfl
  · exact Iff.rfl

/-- The definitions are those of the first pass. -/
theorem linked_draft_defines (sources : Sources) :
    Linked (draft T sources).edges s t .defines ↔ Linked (assembly T sources).edges s t .defines :=
  foldl_keeps (P := fun d' : Draft => Linked d'.edges s t .defines ↔ _)
    (fun _ _ _ hd => linked_linkFile_defines.trans hd) Iff.rfl

/-- The import edges are those of the imports. -/
theorem imports_iff (sources : Sources) :
    Linked (draft T sources).edges s t .imports ↔
      ∃ f ∈ sources.files, f.isCode ∧
        ∃ item ∈ f.parsed.imports, ImportsTo T (assembly T sources) f item s t := by
  unfold draft
  dsimp only
  rw [foldl_iff (f := linkFile T (assembly T sources))
    (P := fun d : Draft => Linked d.edges s t .imports) (fun d f _ => linked_linkFile)]
  exact or_iff_right (not_linked_assembly sources (by decide))

/-! ## The graph -/

theorem relation_value_injective : Function.Injective GraphRelation.value := by
  intro x y h
  cases x <;> cases y <;> first | rfl | exact absurd h (by decide)

/-- Whether a graph has an edge of a relation. -/
def Joined (g : ProjectGraph) (s t : String) (r : GraphRelation) : Prop :=
  ∃ e ∈ g.edges, e.sourceId = s ∧ e.targetId = t ∧ e.relation = r.value

/-- The graph has the edges that the passes made. -/
theorem joined_assemble {parserVersion : String} {now : Time} (sources : Sources) :
    Joined (assemble T parserVersion now sources) s t r ↔
      Linked (draft T sources).edges s t r := by
  unfold Joined Linked assemble
  simp only [List.mem_map, List.mem_insertionSort, Table.mem_def]
  constructor
  · rintro ⟨e, ⟨x, hx, rfl⟩, hs, ht, hr⟩
    exact ⟨x, hx, hs, ht, relation_value_injective hr⟩
  · rintro ⟨x, hx, hs, ht, rfl⟩
    exact ⟨_, ⟨x, hx, rfl⟩, hs, ht, rfl⟩

/-! ## The nodes' identifiers -/

/-- What the identifiers of a file's module and symbols are made of. -/
def described (f : SourceFile) : List (String × List String) :=
  ("module", [f.path, f.moduleName]) ::
    f.parsed.symbols.map fun s => ("symbol", [f.path, s.qualifiedName, s.kind])

/-- Whether no two modules or symbols of some files have one identifier. -/
def DistinctIds (T : Texts) (sources : Sources) : Prop :=
  ∀ f ∈ sources.files, ∀ g ∈ sources.files, ∀ x ∈ described f, ∀ y ∈ described g,
    nodeId T x.1 x.2 = nodeId T y.1 y.2 → x = y

/-- A path is one file's. -/
theorem eq_of_path {g : SourceFile} (hf : f ∈ sources.files) (hg : g ∈ sources.files)
    (h : f.path = g.path) : f = g :=
  List.inj_on_of_nodup_map sources.sorted.nodup hf hg h

end ProjectGraphEngine

end Orqalis
