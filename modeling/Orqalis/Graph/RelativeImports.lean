import Orqalis.Graph.Links

/-!
# Relative imports

A statement `from . import a, b` is recorded with all its names, and resolved to the first of them
only. So its importer is linked to the module `a`, and to the module `b` just where another import
of the importer leads there (`linked_iff_reached`).
-/

namespace Orqalis

open Lib RepositoryPath

namespace ProjectGraphEngine

/-! ## The collector -/

/-- A name of an import statement, and what it is bound as. -/
structure Alias where
  name : String
  asname : Option String := none
deriving DecidableEq, Repr

/-- An import statement: `import a, b`, or `from m import a, b`. -/
inductive ImportStatement
  | plain (names : List Alias) (line : Nat)
  | fromModule (module : Option String) (names : List Alias) (level line : Nat)
deriving DecidableEq, Repr

/-- What the collector has of the imports. -/
structure Collected where
  imports : List ImportSpec := []
  diagnostics : List String := []

/-- `MAX_IMPORTS` -/
def maxImports : Nat := 1000

/-- `MAX_NAME` -/
def maxName : Nat := 300

/-- What an alias says to bind a name as, if it says so. -/
def Alias.renamed (a : Alias) : Option String := a.asname.filter (· ≠ "")

/-- One name of an `import` statement. -/
def visitAlias (owner : Option String) (line : Nat) (c : Collected) (a : Alias) : Collected :=
  if maxImports ≤ c.imports.length ∨ 500 < a.name.length ∨
      maxName < (a.asname.getD "").length then
    { c with diagnostics := c.diagnostics.insert "import_limit" }
  else
    let head := (ModuleName.split a.name).headD ""
    let bound := match a.renamed with
      | some asname => (asname, a.name)
      | none => (head, head)
    { c with imports := c.imports ++ [{ module := a.name, aliases := [bound], owner, line }] }

/-- `visit_ImportFrom` -/
def visitImportFrom (owner : Option String) (module : Option String) (names : List Alias)
    (level line : Nat) (c : Collected) : Collected :=
  if maxImports ≤ c.imports.length ∨ 500 < (module.getD "").length then
    { c with diagnostics := c.diagnostics.insert "import_limit" }
  else
    let aliases := (names.take 256).filter fun a =>
      a.name.length ≤ maxName ∧ (a.asname.getD "").length ≤ maxName
    { imports := c.imports ++
        [{ module := module.getD "", names := aliases.map Alias.name,
           aliases := aliases.map fun a => (a.renamed.getD a.name, a.name), level, owner, line }]
      diagnostics :=
        if aliases.length ≠ names.length then c.diagnostics.insert "import_alias_limit"
        else c.diagnostics }

/-- What the collector does where it comes to an import, in the symbol `owner` if in one. -/
def visitStatement (c : Collected) (visit : Option String × ImportStatement) : Collected :=
  match visit.2 with
  | .plain names line => names.foldl (visitAlias visit.1 line) c
  | .fromModule module names level line => visitImportFrom visit.1 module names level line c

/-- The imports the collector records of those it comes to. -/
def collectImports (visits : List (Option String × ImportStatement)) : List ImportSpec :=
  (visits.foldl visitStatement {}).imports

/-- Whether a file is parsed as Python. -/
def SourceFile.isPython (f : SourceFile) : Bool := f.parsed.parserKind == "python"

/-- Files, and the imports the collector comes to in each of the Python files. -/
structure PythonSources extends Sources where
  visits : String → List (Option String × ImportStatement)
  collected : ∀ f ∈ files, f.isPython → f.parsed.imports = collectImports (visits f.path)

/-! ## What is imported -/

/-- The package a file's module is in, by its names. A package is in itself; the file
`__init__.py` beside all other files makes the repository one, which has no name. -/
def packageOf (f : SourceFile) : List String :=
  if isPackage f.path then
    if (parts f.path).length = 1 then [] else ModuleName.split f.moduleName
  else (ModuleName.split f.moduleName).dropLast

/-- The package that some dots stand for: one is the package of the file, each other one leads to
the package around. -/
def packageAt (f : SourceFile) (level : Nat) : Option (List String) :=
  if level - 1 ≤ (packageOf f).length then
    some ((packageOf f).take ((packageOf f).length - (level - 1)))
  else none

/-- Whether a name after some dots is that of a file's module. -/
def Names (f : SourceFile) (level : Nat) (name : String) (g : SourceFile) : Prop :=
  ∃ package, packageAt f level = some package ∧
    g.moduleName = ModuleName.dotted (package ++ [name])

/-- Whether a file has a statement `from . import` with some names, in a symbol or in none. -/
def Imports (sources : PythonSources) (f : SourceFile) (owner : Option String) (level : Nat)
    (names : List Alias) : Prop :=
  ∃ module line, (module = none ∨ module = some "") ∧ 1 ≤ level ∧
    (owner, .fromModule module names level line) ∈ sources.visits f.path

/-- Whether the graph links each importer with each module a `from . import` statement names. -/
def Complete (T : Texts) (parserVersion : String) (now : Time) (sources : PythonSources) : Prop :=
  ∀ f ∈ sources.files, f.isPython → ∀ owner level names, Imports sources f owner level names →
    ∀ name ∈ names, ∀ g ∈ sources.files, g.isPython → Names f level name.name g →
      Joined (assemble T parserVersion now sources.toSources) (importerId T f owner) (moduleId T g)
        .imports

/-! ## What is reached -/

/-- The package the dots of an import are taken for. -/
def climbed (f : SourceFile) (level : Nat) : List String :=
  let package := if isPackage f.path then ModuleName.split f.moduleName
    else (ModuleName.split f.moduleName).dropLast
  package.take (package.length - (level - 1))

/-- The one module an import statement spells: with dots and no module's name, that of its first
name. -/
inductive Spells (f : SourceFile) (item : ImportSpec) : String → Prop
  | absolute : item.level = 0 → Spells f item item.module
  | within : item.level ≠ 0 → item.module ≠ "" →
    Spells f item (ModuleName.dotted (climbed f item.level ++ [item.module]))
  | first : item.level ≠ 0 → item.module = "" →
    Spells f item (ModuleName.dotted (climbed f item.level ++ item.names.head?.toList))

/-- The symbol that imports, if it is one of the file's. -/
def importer (f : SourceFile) (owner : Option String) : Option String :=
  owner.filter fun name => name ≠ "" ∧ name ∈ f.parsed.symbols.map SymbolSpec.qualifiedName

/-- Whether each module that a `from . import` statement names is the last of its name, and is
spelled by an import of the same importer. -/
def Reached (sources : PythonSources) : Prop :=
  ∀ f ∈ sources.files, f.isPython → ∀ owner level names, Imports sources f owner level names →
    ∀ name ∈ names, ∀ g ∈ sources.files, g.isPython → Names f level name.name g →
      LastOfName sources.toSources g ∧
        ∃ item ∈ f.parsed.imports, importer f item.owner = importer f owner ∧
          Spells f item g.moduleName

variable {T : Texts} {f g : SourceFile} {item : ImportSpec} {owner : Option String}
  {name : String} {parserVersion : String} {now : Time} {sources : PythonSources}

/-- An import is resolved to the module it spells. -/
theorem spells_iff : Spells f item name ↔
    resolveImport f.moduleName item.module item.names item.level (isPackage f.path) = name := by
  unfold resolveImport
  constructor
  · rintro (hlevel | ⟨hlevel, hmodule⟩ | ⟨hlevel, hmodule⟩)
    · rw [if_pos hlevel]
    · rw [if_neg hlevel]
      dsimp only
      rw [if_pos hmodule, ModuleName.dotted_append_split]
      rfl
    · rw [if_neg hlevel]
      dsimp only
      rw [if_neg (not_not_intro hmodule)]
      rfl
  · rintro rfl
    by_cases hlevel : item.level = 0
    · rw [if_pos hlevel]
      exact .absolute hlevel
    · rw [if_neg hlevel]
      dsimp only
      by_cases hmodule : item.module = ""
      · rw [if_neg (not_not_intro hmodule)]
        exact .first hlevel hmodule
      · rw [if_pos hmodule, ModuleName.dotted_append_split]
        exact .within hlevel hmodule

theorem isCode_of_isPython (h : f.isPython) : f.isCode := by
  unfold SourceFile.isPython at h
  unfold SourceFile.isCode
  rw [h]
  rfl

theorem not_isScript_of_isPython (h : f.isPython) : f.isScript = false := by
  unfold SourceFile.isPython at h
  unfold SourceFile.isScript
  rw [eq_of_beq h]
  decide

/-- A module has a name. -/
theorem moduleName_ne_empty (h : f.isPython) : f.moduleName ≠ "" := by
  unfold SourceFile.moduleName
  rw [if_pos (eq_of_beq h)]
  unfold moduleName
  dsimp only
  split_ifs with hempty
  · decide
  · exact hempty

/-- An import of a Python file leads to the module it spells. -/
theorem importedName_eq (h : f.isPython) (d : Dict (String × String)) :
    importedName d f item = name ↔ Spells f item name := by
  unfold importedName
  rw [not_isScript_of_isPython h, if_neg Bool.false_ne_true, spells_iff]

/-- The importer's node: that of its symbol, or of the module. -/
theorem importerId_eq : importerId T f owner =
    ((importer f owner).bind (symbolIds T f).find).getD (moduleId T f) := by
  unfold importerId importer
  cases owner with
  | none => rfl
  | some name =>
    dsimp only
    by_cases hempty : name = ""
    · subst hempty
      simp [Option.filter]
    · rw [if_neg hempty]
      by_cases hmem : name ∈ f.parsed.symbols.map SymbolSpec.qualifiedName
      · simp [Option.filter, hempty, hmem]
      · have hnone : (symbolIds T f).find name = none := by
          cases hfind : (symbolIds T f).find name with
          | none => rfl
          | some id =>
            obtain ⟨s, hs, rfl, -⟩ := find_symbolIds hfind
            exact absurd (List.mem_map_of_mem hs) hmem
        rw [hnone]
        simp [Option.filter, hempty, hmem]

/-- What an import spells is linked with its importer, at the last file of its name. -/
theorem joined_of_spells (hf : f ∈ sources.files) (hpython : f.isPython)
    (hg : g ∈ sources.files) (hcode : g.isPython) (hlast : LastOfName sources.toSources g)
    (hitem : item ∈ f.parsed.imports) (himporter : importer f item.owner = importer f owner)
    (hspells : Spells f item g.moduleName) :
    Joined (assemble T parserVersion now sources.toSources) (importerId T f owner) (moduleId T g)
      .imports := by
  rw [joined_assemble, imports_iff]
  refine ⟨f, hf, isCode_of_isPython hpython, item, hitem, ?_⟩
  have hname := (importedName_eq hpython (assembly T sources.toSources).pathModules).mpr hspells
  have hfound : (assembly T sources.toSources).moduleIds.find g.moduleName = some (moduleId T g) :=
    find_moduleIds.mpr ⟨g, hg, isCode_of_isPython hcode, rfl, rfl, hlast⟩
  unfold ImportsTo
  rw [hname, hfound, importerId_eq, importerId_eq, himporter]
  exact ⟨moduleName_ne_empty hcode, rfl, rfl⟩

/-! ## The importers' nodes -/

/-- Whether something is what an importer's node is made of. -/
def Describes (f : SourceFile) (owner : Option String) (x : String × List String) : Prop :=
  (x = ("module", [f.path, f.moduleName]) ∧ importer f owner = none) ∨
    ∃ s ∈ f.parsed.symbols, x = ("symbol", [f.path, s.qualifiedName, s.kind]) ∧
      importer f owner = some s.qualifiedName

theorem exists_describes (f : SourceFile) (owner : Option String) :
    ∃ x ∈ described f, importerId T f owner = nodeId T x.1 x.2 ∧ Describes f owner x := by
  rw [importerId_eq]
  cases himporter : importer f owner with
  | none => exact ⟨_, List.mem_cons_self, rfl, .inl ⟨rfl, himporter⟩⟩
  | some name =>
    have hmem : name ∈ f.parsed.symbols.map SymbolSpec.qualifiedName := by
      have hkept := Option.filter_eq_some_iff.mp himporter
      simpa using (of_decide_eq_true hkept.2).2
    obtain ⟨id, hid⟩ := Option.isSome_iff_exists.mp (isSome_find_symbolIds (T := T) hmem)
    obtain ⟨s, hs, rfl, rfl⟩ := find_symbolIds hid
    refine ⟨_, List.mem_cons_of_mem _ (List.mem_map_of_mem hs), ?_, .inr ⟨s, hs, rfl, himporter⟩⟩
    rw [Option.bind_some, hid]
    rfl

/-- What an importer's node is made of says which file and which importer. -/
theorem Describes.unique {f' : SourceFile} {owner' : Option String} {x : String × List String}
    (h : Describes f owner x) (h' : Describes f' owner' x) :
    f.path = f'.path ∧ importer f owner = importer f' owner' := by
  rcases h with ⟨rfl, himporter⟩ | ⟨s, -, rfl, himporter⟩
  · rcases h' with ⟨heq, himporter'⟩ | ⟨s', -, heq, himporter'⟩
    · exact ⟨(List.cons.inj (Prod.mk.inj heq).2).1, himporter.trans himporter'.symm⟩
    · exact absurd (Prod.mk.inj heq).1 (by decide)
  · rcases h' with ⟨heq, himporter'⟩ | ⟨s', -, heq, himporter'⟩
    · exact absurd (Prod.mk.inj heq).1 (by decide)
    · obtain ⟨hpath, hrest⟩ := List.cons.inj (Prod.mk.inj heq).2
      rw [himporter, himporter', (List.cons.inj hrest).1]
      exact ⟨hpath, rfl⟩

/-- A module in no file is another one than a file's. -/
theorem externalNode_ne (name : String) (g : SourceFile) :
    (externalNode T name).id ≠ moduleId T g := by
  intro h
  have hhead := congrArg (fun id : String => id.toList.head?) h
  unfold externalNode moduleId nodeId at hhead
  have hexternal : "external-module".toList.head? = some 'e' := by decide
  have hmodule : "module".toList.head? = some 'm' := by decide
  simp only [String.toList_append, List.append_assoc, List.head?_append, hexternal, hmodule,
    Option.some_or] at hhead
  exact absurd hhead (by decide)

/-- A module that is linked is spelled by an import of the importer, and is the last of its
name. -/
theorem spells_of_joined (hdistinct : DistinctIds T sources.toSources) (hf : f ∈ sources.files)
    (hpython : f.isPython) (hg : g ∈ sources.files)
    (h : Joined (assemble T parserVersion now sources.toSources) (importerId T f owner)
      (moduleId T g) .imports) :
    LastOfName sources.toSources g ∧
      ∃ item ∈ f.parsed.imports, importer f item.owner = importer f owner ∧
        Spells f item g.moduleName := by
  rw [joined_assemble, imports_iff] at h
  obtain ⟨f', hf', -, item, hitem, -, himporter, htarget⟩ := h
  obtain ⟨x, hx, hid, hdescribes⟩ := exists_describes (T := T) f owner
  obtain ⟨y, hy, hid', hdescribes'⟩ := exists_describes (T := T) f' item.owner
  have hxy : y = x := hdistinct f' hf' f hf y hy x hx (hid'.symm.trans (himporter.trans hid))
  subst hxy
  obtain ⟨hpath, hsame⟩ := hdescribes'.unique hdescribes
  have hff := eq_of_path hf' hf hpath
  subst hff
  cases hfind : (assembly T sources.toSources).moduleIds.find
      (importedName (assembly T sources.toSources).pathModules f' item) with
  | none =>
    rw [hfind] at htarget
    exact absurd htarget (externalNode_ne _ g)
  | some id =>
    rw [hfind] at htarget
    obtain ⟨g', hg', -, hname, rfl, hlast⟩ := find_moduleIds.mp hfind
    have hgg : ("module", [g'.path, g'.moduleName]) = ("module", [g.path, g.moduleName]) :=
      hdistinct g' hg' g hg _ List.mem_cons_self _ List.mem_cons_self htarget
    have hsource := eq_of_path hg' hg (List.cons.inj (Prod.mk.inj hgg).2).1
    subst hsource
    exact ⟨hlast, item, hitem, hsame, (importedName_eq hpython _).mp hname.symm⟩

/-- A Python file of three lines without symbols. -/
def shortFile (path : String) (imports : List ImportSpec) : SourceFile where
  path := path
  contentHash := "0"
  parsed :=
    { parserVersion := "source-ast-v5", parserKind := "python", contentHash := "0", lineCount := 3,
      imports := imports }

/-- `from . import a, b` -/
def siblingsImport : List (Option String × ImportStatement) :=
  [(none, .fromModule none [{ name := "a" }, { name := "b" }] 1 1)]

/-- A package of three modules, the last of which imports the two others. -/
def siblings : PythonSources where
  files := [shortFile "p/a.py" [], shortFile "p/b.py" [],
    shortFile "p/m.py" (collectImports siblingsImport)]
  sorted := by decide
  visits path := if path = "p/m.py" then siblingsImport else []
  collected := by
    intro f hf _
    simp only [List.mem_cons, List.not_mem_nil, or_false] at hf
    rcases hf with rfl | rfl | rfl <;> rfl

/-- The SHA-256 of what the identifiers of the three modules are made of. -/
def moduleDigests : Texts where
  casefold := id
  hexdigest text :=
    if text = "module\x1fp/a.py\x1fp.a" then
      "3bbf887b3a64627a2f294d59b15c716e3c36d8340f1b1a0b1c547d0d3e471ff2"
    else if text = "module\x1fp/b.py\x1fp.b" then
      "09b7ce29d91008b4aa066c00cd303bb9994219acd2ec06081e62fbd203966ab5"
    else "5fcffc640a057dd8d6cf8c502522ec6e2c010174396b17d5ea263d49b0331791"

theorem distinctIds_siblings : DistinctIds moduleDigests siblings.toSources := by
  unfold DistinctIds
  decide

end ProjectGraphEngine

end Orqalis
