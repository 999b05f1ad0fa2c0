import Orqalis.Graph.Links

/-!
# The form of the assembled graph

Every edge of the assembled graph joins two of its nodes (`closed_assemble`). A file defines its
module, and the module its symbols, each through the symbols around it, unless two symbols of a
file have one qualified name and different kinds: they are two nodes, and only the later one is
defined by anything (`wellFormed_iff`).
-/

namespace Orqalis

open Lib

namespace ProjectGraphEngine

variable {T : Texts} {nodes : Nodes} {edges : Edges} {s t : String} {r : GraphRelation}
  {f g : SourceFile} {a : Assembly} {d : Draft}

/-! ## Edges join nodes -/

/-- Whether every edge joins two of some nodes. -/
def Closed (nodes : Nodes) (edges : Edges) : Prop :=
  ∀ e ∈ edges, nodes.has e.sourceId = true ∧ nodes.has e.targetId = true

theorem has_put_self (nodes : Nodes) (node : GraphNode) : (nodes.put node).has node.id = true := by
  unfold Table.has
  rw [Table.get?_put_self]
  rfl

theorem Closed.put (h : Closed nodes edges) (node : GraphNode) : Closed (nodes.put node) edges :=
  fun e he => ⟨Table.has_put (h e he).1, Table.has_put (h e he).2⟩

theorem Closed.addEdge (h : Closed nodes edges) (hs : nodes.has s = true) (ht : nodes.has t = true)
    (p : GraphProvenance) (c : Rat) (place : String) (b x : Option String) :
    Closed nodes (addEdge edges s t r p c place b x) :=
  Table.forall_put h ⟨hs, ht⟩

theorem Closed.addDefinition (h : Closed nodes edges) (hs : nodes.has s = true)
    (ht : nodes.has t = true) (place : String) : Closed nodes (addDefinition edges s t place) :=
  h.addEdge hs ht _ _ _ _ _

/-! ## The first pass -/

/-- What the first pass makes of a file: its node, those of its module and its symbols, and that of
its test suite. -/
structure Made (T : Texts) (f : SourceFile) (nodes : Nodes) : Prop where
  file : nodes.has (fileId T f) = true
  module : f.isCode → nodes.has (moduleId T f) = true
  symbols : f.isCode → ∀ u ∈ f.parsed.symbols, nodes.has (symbolId T f u) = true
  suite : isTestPath T f.path → nodes.has (suiteId T f) = true

theorem Made.put (h : Made T f nodes) (node : GraphNode) : Made T f (nodes.put node) where
  file := Table.has_put h.file
  module hcode := Table.has_put (h.module hcode)
  symbols hcode u hu := Table.has_put (h.symbols hcode u hu)
  suite htest := Table.has_put (h.suite htest)

/-- Whether the nodes of a state hold those of another, and its edges join its nodes. -/
structure Grown (nodes : Nodes) (nodes' : Nodes) (edges' : Edges) : Prop where
  kept : ∀ id, nodes.has id = true → nodes'.has id = true
  closed : Closed nodes' edges'

theorem Grown.put (h : Grown nodes a.nodes a.edges) (node : GraphNode) :
    Grown nodes (a.nodes.put node) a.edges :=
  ⟨fun id hid => Table.has_put (h.kept id hid), h.closed.put node⟩

theorem grown_addPart (h : Grown nodes a.nodes a.edges) (hfile : a.nodes.has (fileId T f) = true)
    (node : GraphNode) : Grown nodes (addPart T f a node).nodes (addPart T f a node).edges :=
  ⟨(h.put node).kept,
    (h.closed.put node).addDefinition (Table.has_put hfile) (has_put_self a.nodes node) _⟩

theorem grown_addRole (h : Grown nodes a.nodes a.edges) (hfile : a.nodes.has (fileId T f) = true) :
    Grown nodes (addRole T f a).nodes (addRole T f a).edges := by
  unfold addRole
  by_cases hconfiguration : fileRole T f.path = "configuration"
  · simp only [if_pos hconfiguration]
    exact grown_addPart h hfile _
  · by_cases hdocumentation : fileRole T f.path = "documentation"
    · simp only [if_neg hconfiguration, if_pos hdocumentation]
      exact grown_addPart h hfile _
    · simp only [if_neg hconfiguration, if_neg hdocumentation]
      exact h

theorem grown_addSuite (h : Grown nodes a.nodes a.edges)
    (hfile : a.nodes.has (fileId T f) = true) :
    Grown nodes (addSuite T f a).nodes (addSuite T f a).edges := by
  unfold addSuite
  split_ifs
  · exact grown_addPart h hfile _
  · exact h

/-- The nodes of symbols are there, and what was stays. -/
theorem grown_foldl_addSymbol (h : Grown nodes a.nodes a.edges) (symbols : List SymbolSpec) :
    Grown nodes (symbols.foldl (addSymbol T f) a).nodes (symbols.foldl (addSymbol T f) a).edges ∧
      ∀ u ∈ symbols, (symbols.foldl (addSymbol T f) a).nodes.has (symbolId T f u) = true :=
  foldl_all (f := addSymbol T f) (I := fun b : Assembly => Grown nodes b.nodes b.edges)
    (Q := fun u (b : Assembly) => b.nodes.has (symbolId T f u) = true)
    (fun _ u _ hb => hb.put (symbolNode T f u))
    (fun b u _ _ => has_put_self b.nodes (symbolNode T f u))
    (fun _ _ _ _ _ hb => Table.has_put hb) h

/-- The node a symbol is defined by is its module's or a symbol's of the file. -/
theorem has_parentId (hmodule : nodes.has (moduleId T f) = true)
    (hsymbols : ∀ u ∈ f.parsed.symbols, nodes.has (symbolId T f u) = true) (u : SymbolSpec) :
    nodes.has (parentId T f u) = true := by
  unfold parentId
  cases u.parentQualifiedName with
  | none => exact hmodule
  | some parent =>
    dsimp only
    split_ifs
    · exact hmodule
    · cases hfind : (symbolIds T f).find parent with
      | none => exact hmodule
      | some id =>
        obtain ⟨v, hv, -, rfl⟩ := find_symbolIds hfind
        exact hsymbols v hv

/-- The node a symbol of the file is found at is a symbol's of the file. -/
theorem has_found (hsymbols : ∀ u ∈ f.parsed.symbols, nodes.has (symbolId T f u) = true)
    {u : SymbolSpec} (hu : u ∈ f.parsed.symbols) :
    nodes.has (((symbolIds T f).find u.qualifiedName).getD "") = true := by
  obtain ⟨id, hid⟩ := Option.isSome_iff_exists.mp
    (isSome_find_symbolIds (T := T) (List.mem_map_of_mem hu))
  obtain ⟨v, hv, -, rfl⟩ := find_symbolIds hid
  rw [hid]
  exact hsymbols v hv

theorem grown_addModule (h : Grown nodes a.nodes a.edges)
    (hfile : a.nodes.has (fileId T f) = true) :
    Grown nodes (addModule T f a).nodes (addModule T f a).edges ∧
      (f.isCode → (addModule T f a).nodes.has (moduleId T f) = true ∧
        ∀ u ∈ f.parsed.symbols, (addModule T f a).nodes.has (symbolId T f u) = true) := by
  unfold addModule
  by_cases hcode : f.isCode
  · rw [if_pos hcode]
    dsimp only
    -- the assembly with the module's node, before the symbols
    generalize ha₁ : ({ a with
      moduleIds := a.moduleIds.put (f.moduleName, moduleId T f)
      pathModules := a.pathModules.put (f.path, f.moduleName, moduleId T f)
      nodes := a.nodes.put (wholeFile f (moduleId T f) .module f.moduleName (language T f.path)
        [("qualified_name", .text f.moduleName)])
      edges := addDefinition a.edges (fileId T f) (moduleId T f) (place f.path 1) } : Assembly) = a₁
    have hkept₁ : ∀ id, nodes.has id = true → a₁.nodes.has id = true := by
      subst ha₁
      exact fun id hid => Table.has_put (h.kept id hid)
    have hmodule₁ : a₁.nodes.has (moduleId T f) = true := by
      subst ha₁
      exact has_put_self a.nodes _
    have hclosed₁ : Closed a₁.nodes a₁.edges := by
      subst ha₁
      exact (h.closed.put _).addDefinition (Table.has_put hfile) (has_put_self a.nodes _) _
    have hgrown₁ : Grown a₁.nodes a₁.nodes a₁.edges := ⟨fun _ hid => hid, hclosed₁⟩
    obtain ⟨hgrown, hsymbols⟩ := grown_foldl_addSymbol (T := T) (f := f) hgrown₁ f.parsed.symbols
    have hmodule := hgrown.kept _ hmodule₁
    refine ⟨⟨fun id hid => hgrown.kept id (hkept₁ id hid), ?_⟩, fun _ => ⟨hmodule, hsymbols⟩⟩
    exact foldl_keeps (fun edges u hu hedges => hedges.addDefinition
      (has_parentId hmodule hsymbols u) (has_found hsymbols hu) _) hgrown.closed
  · rw [if_neg hcode]
    exact ⟨h, fun hcode' => absurd hcode' hcode⟩

theorem Grown.refl (h : Closed a.nodes a.edges) : Grown a.nodes a.nodes a.edges :=
  ⟨fun _ hid => hid, h⟩

theorem has_suiteId (htest : isTestPath T f.path) :
    (addSuite T f a).nodes.has (suiteId T f) = true := by
  unfold addSuite
  rw [if_pos htest]
  exact has_put_self a.nodes _

/-- A file brings edges between its nodes, which it makes. -/
theorem grown_addFile (h : Closed a.nodes a.edges) :
    Grown a.nodes (addFile T a f).nodes (addFile T a f).edges ∧ Made T f (addFile T a f).nodes := by
  unfold addFile
  dsimp only
  generalize ha₀ : ({ a with nodes := a.nodes.put (fileNode T f) } : Assembly) = a₀
  have hfile₀ : a₀.nodes.has (fileId T f) = true := by
    subst ha₀
    exact has_put_self a.nodes (fileNode T f)
  have hgrown₀ : Grown a.nodes a₀.nodes a₀.edges := by
    subst ha₀
    exact (Grown.refl h).put (fileNode T f)
  obtain ⟨hmodule, hmade⟩ := grown_addModule (Grown.refl hgrown₀.closed) hfile₀
  have hfile₁ := hmodule.kept _ hfile₀
  have hrole := grown_addRole (Grown.refl hmodule.closed) hfile₁
  have hfile₂ := hrole.kept _ hfile₁
  have hsuite := grown_addSuite (Grown.refl hrole.closed) hfile₂
  refine ⟨⟨fun id hid => hsuite.kept id (hrole.kept id (hmodule.kept id (hgrown₀.kept id hid))),
    hsuite.closed⟩, ⟨hsuite.kept _ hfile₂, fun hcode => ?_, fun hcode u hu => ?_, ?_⟩⟩
  · exact hsuite.kept _ (hrole.kept _ (hmade hcode).1)
  · exact hsuite.kept _ (hrole.kept _ ((hmade hcode).2 u hu))
  · exact has_suiteId

variable {sources : Sources}

theorem Made.grown {nodes' : Nodes} (h : Made T f nodes)
    (hkept : ∀ id, nodes.has id = true → nodes'.has id = true) : Made T f nodes' where
  file := hkept _ h.file
  module hcode := hkept _ (h.module hcode)
  symbols hcode u hu := hkept _ (h.symbols hcode u hu)
  suite htest := hkept _ (h.suite htest)

/-- The first pass makes what it makes of each file, and joins nothing else. -/
theorem closed_assembly (sources : Sources) :
    Closed (assembly T sources).nodes (assembly T sources).edges ∧
      ∀ f ∈ sources.files, Made T f (assembly T sources).nodes := by
  have hempty : Closed (Table.empty : Nodes) (Table.empty : Edges) := fun e he => by cases he
  exact foldl_all (f := addFile T) (I := fun b : Assembly => Closed b.nodes b.edges)
    (Q := fun f (b : Assembly) => Made T f b.nodes) (fun _ _ _ hb => (grown_addFile hb).1.closed)
    (fun _ _ _ hb => (grown_addFile hb).2)
    (fun _ _ _ hb _ hmade => hmade.grown (grown_addFile hb).1.kept) hempty

/-! ## The second pass -/

/-- What is found of symbols and test suites is some file's. -/
structure Known (T : Texts) (sources : Sources) (a : Assembly) : Prop where
  symbols : ∀ x ∈ a.qualifiedSymbols,
    ∃ f ∈ sources.files, f.isCode ∧ ∃ u ∈ f.parsed.symbols, x.2 = symbolId T f u
  suites : ∀ x ∈ a.testSuites, ∃ f ∈ sources.files, isTestPath T f.path ∧ x.2 = suiteId T f

theorem known_addModule (h : Known T sources a) (hf : f ∈ sources.files) :
    Known T sources (addModule T f a) := by
  unfold addModule
  by_cases hcode : f.isCode
  · rw [if_pos hcode]
    have hfold : ∀ b : Assembly, Known T sources b →
        Known T sources (f.parsed.symbols.foldl (addSymbol T f) b) := fun b hb =>
      foldl_keeps (f := addSymbol T f) (fun b u hu hb =>
        ⟨Table.forall_put hb.symbols ⟨f, hf, hcode, u, hu, rfl⟩, hb.suites⟩) hb
    obtain ⟨hsymbols, hsuites⟩ := hfold
      { a with
        moduleIds := a.moduleIds.put (f.moduleName, moduleId T f)
        pathModules := a.pathModules.put (f.path, f.moduleName, moduleId T f)
        nodes := a.nodes.put (wholeFile f (moduleId T f) .module f.moduleName (language T f.path)
          [("qualified_name", .text f.moduleName)])
        edges := addDefinition a.edges (fileId T f) (moduleId T f) (place f.path 1) }
      ⟨h.symbols, h.suites⟩
    exact ⟨hsymbols, hsuites⟩
  · rw [if_neg hcode]
    exact h

theorem known_addRole (h : Known T sources a) : Known T sources (addRole T f a) := by
  unfold addRole
  by_cases hconfiguration : fileRole T f.path = "configuration"
  · simp only [if_pos hconfiguration]
    exact ⟨h.symbols, h.suites⟩
  · by_cases hdocumentation : fileRole T f.path = "documentation"
    · simp only [if_neg hconfiguration, if_pos hdocumentation]
      exact ⟨h.symbols, h.suites⟩
    · simp only [if_neg hconfiguration, if_neg hdocumentation]
      exact h

theorem known_addSuite (h : Known T sources a) (hf : f ∈ sources.files) :
    Known T sources (addSuite T f a) := by
  unfold addSuite
  split_ifs with htest
  · exact ⟨h.symbols, Table.forall_put h.suites ⟨f, hf, htest, rfl⟩⟩
  · exact h

/-- What the first pass leaves to be found is some file's. -/
theorem known_assembly (sources : Sources) : Known T sources (assembly T sources) := by
  have hempty : Known T sources {} := ⟨fun x hx => (by cases hx), fun x hx => (by cases hx)⟩
  refine foldl_keeps (fun b f hf hb => ?_) hempty
  have hfile : Known T sources { b with nodes := b.nodes.put (fileNode T f) } :=
    ⟨hb.symbols, hb.suites⟩
  exact known_addSuite (known_addRole (known_addModule hfile hf)) hf

theorem has_importerId (hmade : Made T f nodes) (hcode : f.isCode) (owner : Option String) :
    nodes.has (importerId T f owner) = true := by
  unfold importerId
  cases owner with
  | none => exact hmade.module hcode
  | some name =>
    dsimp only
    split_ifs
    · exact hmade.module hcode
    · cases hfind : (symbolIds T f).find name with
      | none => exact hmade.module hcode
      | some id =>
        obtain ⟨v, hv, -, rfl⟩ := find_symbolIds hfind
        exact hmade.symbols hcode v hv

variable {symbol : Option SymbolSpec} {reference : String} {resolution : SymbolResolution}

theorem find_of_classMember (h : classMember a f symbol reference = some resolution) :
    ∃ name, a.qualifiedSymbols.find name = some resolution.targetId := by
  unfold classMember at h
  obtain ⟨u, -, h⟩ := Option.bind_eq_some_iff.mp h
  obtain ⟨tail, -, h⟩ := Option.bind_eq_some_iff.mp h
  obtain ⟨_, -, h⟩ := Option.bind_eq_some_iff.mp h
  obtain ⟨parent, -, h⟩ := Option.bind_eq_some_iff.mp h
  obtain ⟨_, -, h⟩ := Option.bind_eq_some_iff.mp h
  obtain ⟨targetId, hfind, h⟩ := Option.bind_eq_some_iff.mp h
  cases h
  exact ⟨_, hfind⟩

/-- The scopes from the inside out: what one resolves a reference to is found among the symbols. -/
theorem find_of_resolveIn {owners : List (Option String)}
    (h : resolveIn a f reference owners = some resolution) :
    ∃ name, a.qualifiedSymbols.find name = some resolution.targetId := by
  induction owners with
  | nil => cases h
  | cons owner owners ih =>
    unfold resolveIn at h
    dsimp only at h
    split at h
    · split_ifs at h
      obtain ⟨targetId, hfind, rfl⟩ := Option.map_eq_some_iff.mp h
      exact ⟨_, hfind⟩
    · split_ifs at h
      · exact ih h
      · split at h
        · next hfind =>
          cases h
          exact ⟨_, hfind⟩
        · exact ih h

/-- What a resolved name stands for is found among the symbols. -/
theorem find_of_resolveSymbol (h : resolveSymbol a f symbol reference = some resolution) :
    ∃ name, a.qualifiedSymbols.find name = some resolution.targetId := by
  unfold resolveSymbol at h
  cases hmember : classMember a f symbol reference with
  | some found =>
    rw [hmember] at h
    cases h
    exact find_of_classMember hmember
  | none =>
    rw [hmember] at h
    dsimp only at h
    split_ifs at h
    exact find_of_resolveIn h

/-- What the second pass starts from: the nodes of the first, and what is found of them. -/
structure Ready (T : Texts) (sources : Sources) (d : Draft) : Prop where
  made : ∀ f ∈ sources.files, Made T f d.nodes
  closed : Closed d.nodes d.edges

theorem Ready.resolved (h : Ready T sources d) (hknown : Known T sources a)
    (hresolved : resolveSymbol a f symbol reference = some resolution) :
    d.nodes.has resolution.targetId = true := by
  obtain ⟨name, hname⟩ := find_of_resolveSymbol hresolved
  obtain ⟨x, hx, hid⟩ := Option.map_eq_some_iff.mp hname
  obtain ⟨g, hg, hcode, u, hu, heq⟩ := hknown.symbols x (Table.mem_of_get? hx)
  rw [← hid, heq]
  exact (h.made g hg).symbols hcode u hu

theorem Ready.grown (h : Ready T sources d) {d' : Draft}
    (hkept : ∀ id, d.nodes.has id = true → d'.nodes.has id = true)
    (hclosed : Closed d'.nodes d'.edges) : Ready T sources d' :=
  ⟨fun f hf => (h.made f hf).grown hkept, hclosed⟩

theorem ready_addExpressionEdge (h : Ready T sources d) (hknown : Known T sources a)
    {sourceId : String} (hsource : d.nodes.has sourceId = true) (relation : GraphRelation)
    (referenceType : String) (expression : String × Nat) :
    Ready T sources
        (addExpressionEdge T a f symbol sourceId relation referenceType d expression) ∧
      (addExpressionEdge T a f symbol sourceId relation referenceType d expression).nodes.has
        sourceId = true := by
  unfold addExpressionEdge
  dsimp only
  split
  · refine ⟨h.grown (fun _ hid => Table.has_put hid) ?_, Table.has_put hsource⟩
    exact (h.closed.put _).addEdge (Table.has_put hsource) (has_put_self _ _) _ _ _ _ _
  · next r hr =>
    have htarget : d.nodes.has r.targetId = true := by
      split_ifs at hr
      exact h.resolved hknown hr
    exact ⟨h.grown (fun _ hid => hid) (h.closed.addEdge hsource htarget _ _ _ _ _), hsource⟩

theorem ready_foldl_addExpressionEdge (f : SourceFile) (symbol : Option SymbolSpec)
    (h : Ready T sources d) (hknown : Known T sources a) {sourceId : String}
    (hsource : d.nodes.has sourceId = true) (relation : GraphRelation) (referenceType : String)
    (expressions : List (String × Nat)) :
    Ready T sources
        (expressions.foldl (addExpressionEdge T a f symbol sourceId relation referenceType) d) ∧
      (expressions.foldl (addExpressionEdge T a f symbol sourceId relation referenceType)
        d).nodes.has sourceId = true :=
  foldl_keeps (f := addExpressionEdge T a f symbol sourceId relation referenceType)
    (P := fun d : Draft => Ready T sources d ∧ d.nodes.has sourceId = true)
    (fun _ e _ hd => ready_addExpressionEdge hd.1 hknown hd.2 relation referenceType e)
    ⟨h, hsource⟩

theorem ready_addUses (h : Ready T sources d) (hknown : Known T sources a)
    (hf : f ∈ sources.files) (hcode : f.isCode) {u : SymbolSpec} (hu : u ∈ f.parsed.symbols) :
    Ready T sources (addUses T a f d u) := by
  have hsource : d.nodes.has (((symbolIds T f).find u.qualifiedName).getD "") = true :=
    has_found ((h.made f hf).symbols hcode) hu
  unfold addUses addCalls
  dsimp only
  obtain ⟨hcalls, hsource⟩ := ready_foldl_addExpressionEdge f (some u) h hknown hsource .calls
    "call" (u.calls.map fun call => (call.name, call.line))
  split_ifs
  · obtain ⟨hbases, hsource⟩ := ready_foldl_addExpressionEdge f (some u) hcalls hknown hsource
      .extends "inheritance" (u.bases.map fun base => (base, u.lineStart))
    exact (ready_foldl_addExpressionEdge f (some u) hbases hknown hsource _ _ _).1
  · exact hcalls

theorem has_setDefault (nodes : Nodes) (node : GraphNode) :
    (setDefault nodes node).has node.id = true := by
  unfold setDefault
  split_ifs with h
  · exact h
  · exact has_put_self nodes node

theorem has_of_setDefault {node : GraphNode} {id : String} (h : nodes.has id = true) :
    (setDefault nodes node).has id = true := by
  unfold setDefault
  split_ifs
  · exact h
  · exact Table.has_put h

theorem closed_addTest (h : Closed d.nodes edges) (hready : ∀ f ∈ sources.files, Made T f d.nodes)
    (hknown : Known T sources a) (ht : d.nodes.has t = true) (known : Bool) (line : Nat) :
    Closed d.nodes (addTest T a f edges t known line) := by
  unfold addTest
  cases hfind : a.testSuites.find f.path with
  | none => exact h
  | some suite =>
    dsimp only
    split_ifs
    · obtain ⟨x, hx, rfl⟩ := Option.map_eq_some_iff.mp hfind
      obtain ⟨g, hg, htest, heq⟩ := hknown.suites x (Table.mem_of_get? hx)
      rw [heq]
      exact h.addEdge ((hready g hg).suite htest) ht _ _ _ _ _
    · exact h

/-- A node that is made where it is not there leaves what was there. -/
theorem Ready.setDefault (h : Ready T sources d) (node : GraphNode) :
    Ready T sources ⟨setDefault d.nodes node, d.edges⟩ :=
  h.grown (fun _ hid => has_of_setDefault hid) fun e he =>
    ⟨has_of_setDefault (h.closed e he).1, has_of_setDefault (h.closed e he).2⟩

theorem ready_addImport (h : Ready T sources d) (hf : f ∈ sources.files) (hcode : f.isCode)
    (item : ImportSpec) : Ready T sources (addImport T (assembly T sources) f d item) := by
  have hlinked : ∀ (d' : Draft) (t : String) (p : GraphProvenance) (c : Rat) (b x : Option String)
      (known : Bool), Ready T sources d' → d'.nodes.has t = true →
      Ready T sources ⟨d'.nodes, addTest T (assembly T sources) f (addEdge d'.edges
        (importerId T f item.owner) t .imports p c (place f.path item.line) b x) t known
        item.line⟩ := by
    intro d' t p c b x known hready ht
    have himporter := has_importerId (hready.made f hf) hcode item.owner
    exact ⟨hready.made, closed_addTest (hready.closed.addEdge himporter ht p c _ b x) hready.made
      (known_assembly sources) ht known item.line⟩
  unfold addImport
  dsimp only
  by_cases hname : importedName (assembly T sources).pathModules f item = ""
  · rw [if_pos hname]
    exact h
  · rw [if_neg hname]
    cases hfind : (assembly T sources).moduleIds.find
        (importedName (assembly T sources).pathModules f item) with
    | none => exact hlinked _ _ _ _ _ _ _ (h.setDefault _) (has_setDefault _ _)
    | some id =>
      obtain ⟨g, hg, hgcode, -, rfl, -⟩ := find_moduleIds.mp hfind
      exact hlinked d _ _ _ _ _ _ h ((h.made g hg).module hgcode)

theorem ready_linkFile (h : Ready T sources d) (hf : f ∈ sources.files) :
    Ready T sources (linkFile T (assembly T sources) d f) := by
  unfold linkFile
  by_cases hcode : f.isCode
  · rw [if_pos hcode]
    have himports : Ready T sources
        (f.parsed.imports.foldl (addImport T (assembly T sources) f) d) :=
      foldl_keeps (P := Ready T sources) (fun _ item _ hd => ready_addImport hd hf hcode item) h
    have hcalls : Ready T sources (addCalls T (assembly T sources) f none (moduleId T f)
        f.parsed.moduleCalls (f.parsed.imports.foldl (addImport T (assembly T sources) f) d)) :=
      (ready_foldl_addExpressionEdge f none himports (known_assembly sources)
        ((himports.made f hf).module hcode) _ _ _).1
    exact foldl_keeps (P := Ready T sources)
      (fun _ u hu hd => ready_addUses hd (known_assembly sources) hf hcode hu) hcalls
  · rw [if_neg hcode]
    exact h

/-- Whether every edge of a graph joins two of its nodes. -/
def JoinsNodes (g : ProjectGraph) : Prop :=
  ∀ e ∈ g.edges, (∃ n ∈ g.nodes, n.id = e.sourceId) ∧ ∃ n ∈ g.nodes, n.id = e.targetId

/-- Every edge of the assembled graph joins two of its nodes. -/
theorem closed_assemble (parserVersion : String) (now : Time) (sources : Sources) :
    JoinsNodes (assemble T parserVersion now sources) := by
  have hready : Ready T sources (draft T sources) :=
    foldl_keeps (fun _ f hf hd => ready_linkFile hd hf)
      ⟨(closed_assembly sources).2, (closed_assembly sources).1⟩
  have hnode : ∀ id, (draft T sources).nodes.has id = true →
      ∃ n ∈ (assemble T parserVersion now sources).nodes, n.id = id := by
    intro id hid
    obtain ⟨n, hn⟩ := Option.isSome_iff_exists.mp hid
    exact ⟨n, (List.mem_insertionSort _).mpr (Table.mem_of_get? hn), Table.key_of_get? hn⟩
  intro e he
  obtain ⟨x, hx, rfl⟩ := List.mem_map.mp he
  obtain ⟨hs, ht⟩ := hready.closed x ((List.mem_insertionSort _).mp hx)
  exact ⟨hnode _ hs, hnode _ ht⟩

/-! ## Definitions -/

/-- Whether a file's module defines something, or the file its module. -/
def DefinesCode (T : Texts) (f : SourceFile) (s t : String) : Prop :=
  f.isCode ∧ ((s = fileId T f ∧ t = moduleId T f) ∨
    ∃ u ∈ f.parsed.symbols, s = parentId T f u ∧
      t = ((symbolIds T f).find u.qualifiedName).getD "")

/-- Whether a node is what a file is beside its module. -/
def IsPart (T : Texts) (f : SourceFile) (t : String) : Prop :=
  ∃ kind ∈ ["configuration", "documentation", "test-suite"], t = nodeId T kind [f.path]

theorem linked_addDefinition_iff (place : String) {s' t' : String} :
    Linked (addDefinition edges s' t' place) s t .defines ↔
      Linked edges s t .defines ∨ (s' = s ∧ t' = t) := by
  unfold addDefinition
  rw [linked_addEdge]
  simp only [and_true]

theorem linked_addModule_iff : Linked (addModule T f a).edges s t .defines ↔
    Linked a.edges s t .defines ∨ DefinesCode T f s t := by
  unfold addModule DefinesCode
  by_cases hcode : f.isCode
  · rw [if_pos hcode]
    dsimp only
    rw [foldl_iff (f := addSymbolEdge T f) (P := fun edges => Linked edges s t .defines)
      (fun edges u _ => linked_addDefinition_iff _), (foldl_addSymbol f _ _).1]
    dsimp only
    rw [linked_addDefinition_iff]
    simp only [hcode, true_and, or_assoc, eq_comm]
  · rw [if_neg hcode]
    exact (or_iff_left fun h => hcode h.1).symm

theorem linked_addPart_iff (node : GraphNode) : Linked (addPart T f a node).edges s t .defines ↔
    Linked a.edges s t .defines ∨ (fileId T f = s ∧ node.id = t) :=
  linked_addDefinition_iff _

/-- What a file is beside its module is defined, and nothing else. -/
theorem linked_addRole_of (h : Linked (addRole T f a).edges s t .defines) :
    Linked a.edges s t .defines ∨ IsPart T f t := by
  unfold addRole at h
  by_cases hconfiguration : fileRole T f.path = "configuration"
  · simp only [if_pos hconfiguration, linked_addPart_iff] at h
    exact h.imp_right fun h => ⟨_, by simp, h.2.symm⟩
  · by_cases hdocumentation : fileRole T f.path = "documentation"
    · simp only [if_neg hconfiguration, if_pos hdocumentation, linked_addPart_iff] at h
      exact h.imp_right fun h => ⟨_, by simp, h.2.symm⟩
    · simp only [if_neg hconfiguration, if_neg hdocumentation] at h
      exact .inl h

theorem linked_addRole_mono (h : Linked a.edges s t .defines) :
    Linked (addRole T f a).edges s t .defines := by
  unfold addRole
  by_cases hconfiguration : fileRole T f.path = "configuration"
  · simp only [if_pos hconfiguration, linked_addPart_iff]
    exact .inl h
  · by_cases hdocumentation : fileRole T f.path = "documentation"
    · simp only [if_neg hconfiguration, if_pos hdocumentation, linked_addPart_iff]
      exact .inl h
    · simp only [if_neg hconfiguration, if_neg hdocumentation]
      exact h

theorem linked_addSuite_of (h : Linked (addSuite T f a).edges s t .defines) :
    Linked a.edges s t .defines ∨ IsPart T f t := by
  unfold addSuite at h
  split_ifs at h
  · exact ((linked_addPart_iff _).mp h).imp_right fun h => ⟨_, by simp, h.2.symm⟩
  · exact .inl h

theorem linked_addSuite_mono (h : Linked a.edges s t .defines) :
    Linked (addSuite T f a).edges s t .defines := by
  unfold addSuite
  split_ifs
  · exact (linked_addPart_iff _).mpr (.inl h)
  · exact h

/-- The definitions of the first pass: those of the files' modules and symbols, and of what else
the files are. -/
theorem linked_assembly_of (h : Linked (assembly T sources).edges s t .defines) :
    ∃ f ∈ sources.files, DefinesCode T f s t ∨ IsPart T f t := by
  have hfold := foldl_keeps (l := sources.files) (f := addFile T)
    (P := fun b : Assembly => Linked b.edges s t .defines →
      ∃ f ∈ sources.files, DefinesCode T f s t ∨ IsPart T f t)
    (fun b f hf hb h => ?_) (b := {}) (fun h => absurd h linked_empty)
  · exact hfold h
  · rcases linked_addSuite_of h with h | h
    · rcases linked_addRole_of h with h | h
      · rcases linked_addModule_iff.mp h with h | h
        · exact hb h
        · exact ⟨f, hf, .inl h⟩
      · exact ⟨f, hf, .inr h⟩
    · exact ⟨f, hf, .inr h⟩

theorem linked_assembly_of_code (hf : f ∈ sources.files) (h : DefinesCode T f s t) :
    Linked (assembly T sources).edges s t .defines := by
  have hall := foldl_all (l := sources.files) (f := addFile T) (b := {}) (I := fun _ => True)
    (Q := fun f (b : Assembly) => DefinesCode T f s t → Linked b.edges s t .defines)
    (fun _ _ _ _ => trivial) (fun b f _ _ h => ?_) (fun b f _ _ g hg h => ?_) trivial
  · exact hall.2 f hf h
  · exact linked_addSuite_mono (linked_addRole_mono (linked_addModule_iff.mpr (.inr h)))
  · exact linked_addSuite_mono (linked_addRole_mono (linked_addModule_iff.mpr (.inl (hg h))))

/-! ## Symbols that are defined -/

/-- Whether no symbol of a file is around a symbol. -/
def Outermost (f : SourceFile) (u : SymbolSpec) : Prop :=
  ∀ parent ∈ u.parentQualifiedName,
    parent = "" ∨ parent ∉ f.parsed.symbols.map SymbolSpec.qualifiedName

/-- Whether a symbol of a file is around another one. -/
def Around (f : SourceFile) (v u : SymbolSpec) : Prop :=
  v ∈ f.parsed.symbols ∧ v.qualifiedName ≠ "" ∧ u.parentQualifiedName = some v.qualifiedName

/-- Whether the symbols around a symbol come to an end. -/
inductive Nested (f : SourceFile) : SymbolSpec → Prop
  | outer {u : SymbolSpec} : Outermost f u → Nested f u
  | inner {v u : SymbolSpec} : Around f v u → Nested f v → Nested f u

/-- Whether a graph leads from a file's module to a symbol along definitions, through the symbols
around it. -/
inductive Defined (T : Texts) (graph : ProjectGraph) (f : SourceFile) : SymbolSpec → Prop
  | outer {u : SymbolSpec} : Outermost f u →
    Joined graph (moduleId T f) (symbolId T f u) .defines → Defined T graph f u
  | inner {v u : SymbolSpec} : Around f v u → Defined T graph f v →
    Joined graph (symbolId T f v) (symbolId T f u) .defines → Defined T graph f u

/-- Whether every edge joins nodes of the graph, and each file leads to its module and its symbols
along definitions. -/
structure WellFormed (T : Texts) (sources : Sources) (graph : ProjectGraph) : Prop where
  joins : JoinsNodes graph
  modules : ∀ f ∈ sources.files, f.isCode → Joined graph (fileId T f) (moduleId T f) .defines
  symbols : ∀ f ∈ sources.files, f.isCode → ∀ u ∈ f.parsed.symbols, Defined T graph f u

/-- Whether no two symbols of a file have one qualified name and different kinds, and the symbols
around each one come to an end. -/
def Unambiguous (sources : Sources) : Prop :=
  ∀ f ∈ sources.files, f.isCode → ∀ u ∈ f.parsed.symbols, Nested f u ∧
    ∀ v ∈ f.parsed.symbols, v.qualifiedName = u.qualifiedName → v.kind = u.kind

variable {parserVersion : String} {now : Time} {u v : SymbolSpec}

theorem joined_of_code (hf : f ∈ sources.files) (h : DefinesCode T f s t) :
    Joined (assemble T parserVersion now sources) s t .defines :=
  (joined_assemble sources).mpr ((linked_draft_defines sources).mpr (linked_assembly_of_code hf h))

/-- A symbol is found under its name, where the name's symbols are of one kind. -/
theorem find_of_sameKind (hu : u ∈ f.parsed.symbols)
    (hsame : ∀ v ∈ f.parsed.symbols, v.qualifiedName = u.qualifiedName → v.kind = u.kind) :
    (symbolIds T f).find u.qualifiedName = some (symbolId T f u) := by
  obtain ⟨id, hid⟩ := Option.isSome_iff_exists.mp
    (isSome_find_symbolIds (T := T) (List.mem_map_of_mem hu))
  obtain ⟨v, hv, hname, rfl⟩ := find_symbolIds hid
  rw [hid]
  unfold symbolId
  rw [hname, hsame v hv hname]

theorem parentId_outermost (h : Outermost f u) : parentId T f u = moduleId T f := by
  unfold parentId
  cases hparent : u.parentQualifiedName with
  | none => rfl
  | some parent =>
    dsimp only
    rcases h parent hparent with rfl | hnone
    · rw [if_pos rfl]
    · split_ifs
      · rfl
      · cases hfind : (symbolIds T f).find parent with
        | none => rfl
        | some id =>
          obtain ⟨w, hw, rfl, -⟩ := find_symbolIds hfind
          exact absurd (List.mem_map_of_mem hw) hnone

theorem parentId_around (h : Around f v u)
    (hfind : (symbolIds T f).find v.qualifiedName = some (symbolId T f v)) :
    parentId T f u = symbolId T f v := by
  unfold parentId
  rw [h.2.2]
  dsimp only
  rw [if_neg h.2.1, hfind]
  rfl

/-- A symbol whose name is of one kind is defined by what is around it. -/
theorem joined_parentId (hf : f ∈ sources.files) (hcode : f.isCode) (hu : u ∈ f.parsed.symbols)
    (hfind : (symbolIds T f).find u.qualifiedName = some (symbolId T f u)) :
    Joined (assemble T parserVersion now sources) (parentId T f u) (symbolId T f u) .defines :=
  joined_of_code hf ⟨hcode, .inr ⟨u, hu, rfl, by rw [hfind]; rfl⟩⟩

theorem defined_of_nested (hf : f ∈ sources.files) (hcode : f.isCode)
    (hfind : ∀ u ∈ f.parsed.symbols,
      (symbolIds T f).find u.qualifiedName = some (symbolId T f u))
    (hu : u ∈ f.parsed.symbols) (h : Nested f u) :
    Defined T (assemble T parserVersion now sources) f u := by
  induction h with
  | outer houter =>
    refine .outer houter ?_
    rw [← parentId_outermost (T := T) houter]
    exact joined_parentId hf hcode hu (hfind _ hu)
  | inner haround hnested ih =>
    refine .inner haround (ih haround.1) ?_
    rw [← parentId_around haround (hfind _ haround.1)]
    exact joined_parentId hf hcode hu (hfind _ hu)

theorem Defined.nested {graph : ProjectGraph} (h : Defined T graph f u) : Nested f u := by
  induction h with
  | outer houter _ => exact .outer houter
  | inner haround _ _ ih => exact .inner haround ih

/-- A defined symbol's node is led to by a definition. -/
theorem Defined.joined {graph : ProjectGraph} (h : Defined T graph f u) :
    ∃ s, Joined graph s (symbolId T f u) .defines := by
  cases h with
  | outer _ hjoined => exact ⟨_, hjoined⟩
  | inner _ _ hjoined => exact ⟨_, hjoined⟩

/-- A symbol's node is no other part's. -/
theorem symbolId_ne (kind : String) (texts : List String) (h : kind.toList.head? ≠ some 's')
    (hne : kind.toList ≠ []) : symbolId T f u ≠ nodeId T kind texts := by
  intro heq
  have hhead := congrArg (fun id : String => id.toList.head?) heq
  unfold symbolId nodeId at hhead
  have hsymbol : "symbol".toList.head? = some 's' := by decide
  obtain ⟨c, cs, hc⟩ := List.exists_cons_of_ne_nil hne
  simp only [String.toList_append, List.append_assoc, List.head?_append, hsymbol, hc,
    List.head?_cons, Option.some_or] at hhead
  rw [hc, List.head?_cons] at h
  exact h hhead.symm

/-- A symbol that is led to by a definition is of the kind of the last one of its name. -/
theorem kind_of_joined (hdistinct : DistinctIds T sources) (hf : f ∈ sources.files)
    (hu : u ∈ f.parsed.symbols)
    (h : Joined (assemble T parserVersion now sources) s (symbolId T f u) .defines) :
    (symbolIds T f).find u.qualifiedName = some (symbolId T f u) := by
  rw [joined_assemble, linked_draft_defines] at h
  obtain ⟨f', hf', ⟨hcode', h⟩ | ⟨kind, hkind, h⟩⟩ := linked_assembly_of h
  · rcases h with ⟨-, h⟩ | ⟨w, hw, -, h⟩
    · exact absurd h (symbolId_ne _ _ (by decide) (by decide))
    · obtain ⟨id, hid⟩ := Option.isSome_iff_exists.mp
        (isSome_find_symbolIds (T := T) (List.mem_map_of_mem hw))
      obtain ⟨v, hv, hname, rfl⟩ := find_symbolIds hid
      rw [hid, Option.getD_some] at h
      have hsame := hdistinct f hf f' hf' _ (List.mem_cons_of_mem _ (List.mem_map_of_mem hu)) _
        (List.mem_cons_of_mem _ (List.mem_map_of_mem hv)) h
      obtain ⟨hpath, hrest⟩ := List.cons.inj (Prod.mk.inj hsame).2
      have hff := eq_of_path hf hf' hpath
      subst hff
      rw [(List.cons.inj hrest).1, hname, hid, h]
  · simp only [List.mem_cons, List.not_mem_nil, or_false] at hkind
    rcases hkind with rfl | rfl | rfl <;>
      exact absurd h (symbolId_ne _ _ (by decide) (by decide))

/-- The assembled graph is well formed exactly where no file has two symbols of one qualified name
and different kinds, and symbols are nested to an end. -/
theorem wellFormed_iff (hdistinct : DistinctIds T sources) :
    WellFormed T sources (assemble T parserVersion now sources) ↔ Unambiguous sources := by
  constructor
  · intro h f hf hcode u hu
    have hfind : ∀ w ∈ f.parsed.symbols,
        (symbolIds T f).find w.qualifiedName = some (symbolId T f w) := by
      intro w hw
      obtain ⟨s, hs⟩ := (h.symbols f hf hcode w hw).joined
      exact kind_of_joined hdistinct hf hw hs
    refine ⟨(h.symbols f hf hcode u hu).nested, fun v hv hname => ?_⟩
    have hids : symbolId T f v = symbolId T f u := by
      have hv' := hfind v hv
      rw [hname, hfind u hu] at hv'
      exact (Option.some.inj hv').symm
    have hsame := hdistinct f hf f hf _ (List.mem_cons_of_mem _ (List.mem_map_of_mem hv)) _
      (List.mem_cons_of_mem _ (List.mem_map_of_mem hu)) hids
    have hrest := (List.cons.inj (Prod.mk.inj hsame).2).2
    exact (List.cons.inj (List.cons.inj hrest).2).1
  · intro h
    refine ⟨closed_assemble parserVersion now sources, fun f hf hcode => ?_,
      fun f hf hcode u hu => ?_⟩
    · exact joined_of_code hf ⟨hcode, .inl ⟨rfl, rfl⟩⟩
    · exact defined_of_nested hf hcode
        (fun w hw => find_of_sameKind hw (h f hf hcode w hw).2) hu (h f hf hcode u hu).1

/-! ## A name of two kinds -/

/-- A function or a class of one line. -/
def shortSymbol (kind : GraphNodeKind) (line : Nat) : SymbolSpec where
  kind := kind.value
  name := "f"
  qualifiedName := "f"
  lineStart := line
  lineEnd := line

/-- A module that defines a function, and a class of the same name after it. -/
def redefined : Sources where
  files :=
    [{ path := "p/m.py"
       contentHash := "0"
       parsed :=
        { parserVersion := "source-ast-v5", parserKind := "python", contentHash := "0",
          lineCount := 3,
          symbols := [shortSymbol .function 1, shortSymbol .classNode 2] } }]
  sorted := by decide

/-- The SHA-256 of what the identifiers of the module, the function and the class are made of. -/
def symbolDigests : Texts where
  casefold := id
  hexdigest text :=
    if text = "module\x1fp/m.py\x1fp.m" then
      "5fcffc640a057dd8d6cf8c502522ec6e2c010174396b17d5ea263d49b0331791"
    else if text = "symbol\x1fp/m.py\x1ff\x1fFUNCTION" then
      "c6ec49bd43bcad9d07095542dec04dfc5d36009e8a54ca969d8d3e16dfe5c6e1"
    else "ecf9b24aeb6d4a89dd6e63ad371444ce70df49a9d4884f9057d6c5c9ad18b257"

theorem distinctIds_redefined : DistinctIds symbolDigests redefined := by
  unfold DistinctIds
  decide

theorem redefined_wellFormed_iff :
    WellFormed symbolDigests redefined (assemble symbolDigests "source-ast-v5" 0 redefined) ↔
      Unambiguous redefined :=
  wellFormed_iff distinctIds_redefined

/-- Nothing defines the function. -/
theorem redefined_not_wellFormed :
    ¬ WellFormed symbolDigests redefined (assemble symbolDigests "source-ast-v5" 0 redefined) := by
  intro h
  have hu : shortSymbol .function 1 ∈ [shortSymbol .function 1, shortSymbol .classNode 2] :=
    List.mem_cons_self
  obtain ⟨s, hs⟩ := (h.symbols _ (List.mem_singleton_self _) rfl _ hu).joined
  have hfind := kind_of_joined distinctIds_redefined (List.mem_singleton_self _) hu hs
  exact absurd hfind (by decide)

end ProjectGraphEngine

end Orqalis
