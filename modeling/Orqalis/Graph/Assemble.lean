import Mathlib.Algebra.Order.Ring.Rat
import Orqalis.Graph.Models
import Orqalis.Graph.Paths

/-!
# The assembly of the project graph

What is parsed of the files of a repository is made into one graph in two passes over the files in
the order of their paths. The first makes the nodes of each file, its module, its symbols and what
else the path says it is, and notes under which names modules and symbols are found. The second
makes the edges that lead from file to file: imports, calls and bases.
-/

namespace Orqalis

open Lib RepositoryPath

namespace ProjectGraphEngine

/-- What the assembly takes of texts: their folded form and the hexadecimal digits of their
SHA-256. -/
structure Texts where
  casefold : String → String
  hexdigest : String → String

/-- A table of values by name. -/
abbrev Dict (β : Type) := Table (Prod.fst : String × β → String)

/-- The value of a name. -/
def Dict.find {β : Type} (d : Dict β) (name : String) : Option β := (d.get? name).map Prod.snd

/-! ## The files -/

/-- A file of a repository, and what is parsed of it. -/
structure SourceFile where
  path : String
  contentHash : String
  parsed : ParsedSource
deriving DecidableEq

/-- The files, in the order of their paths. -/
structure Sources where
  files : List SourceFile
  sorted : (files.map SourceFile.path).Pairwise (· < ·)

/-- `SCRIPT_PARSERS` -/
def scriptParsers : List String := ["javascript", "typescript", "tsx"]

/-- `_DOCUMENT_EXTENSIONS` -/
def documentExtensions : List String := [".md", ".mdx", ".rst", ".txt"]

/-- `_CONFIG_EXTENSIONS` -/
def configExtensions : List String :=
  [".cfg", ".gradle", ".ini", ".json", ".jsonl", ".mod", ".toml", ".xml", ".yaml", ".yml"]

/-- `_CONFIG_NAMES` -/
def configNames : List String := ["dockerfile", "makefile", "procfile", "justfile", "jenkinsfile"]

/-- `_LANGUAGES` -/
def languages : List (String × String) :=
  [(".c", "C"), (".cc", "C++"), (".cpp", "C++"), (".cs", "C#"), (".go", "Go"), (".h", "C"),
    (".hpp", "C++"), (".java", "Java"), (".js", "JavaScript"), (".mjs", "JavaScript"),
    (".cjs", "JavaScript"), (".mts", "TypeScript"), (".cts", "TypeScript"), (".jsx", "JavaScript"),
    (".kt", "Kotlin"), (".kts", "Kotlin"), (".php", "PHP"), (".py", "Python"), (".pyi", "Python"),
    (".rb", "Ruby"), (".rs", "Rust"), (".scala", "Scala"), (".sh", "Shell"), (".swift", "Swift"),
    (".ts", "TypeScript"), (".tsx", "TypeScript")]

variable (T : Texts)

/-- The language of a path, by its suffix. -/
def language (path : String) : Option String := languages.lookup (T.casefold (suffix path))

/-- `_is_test_path` -/
def isTestPath (path : String) : Bool :=
  let source := T.casefold path
  (parts source).contains "tests" || (parts source).contains "test" ||
    ["test_", "tests_"].any (startsWith (name source)) ||
    ["_test.py", ".test.js", ".test.ts", ".spec.js", ".spec.ts"].any (endsWith (name source))

/-- `_file_role` -/
def fileRole (path : String) : String :=
  if isTestPath T path then "test"
  else if documentExtensions.contains (T.casefold (suffix path)) then "documentation"
  else if configExtensions.contains (T.casefold (suffix path)) ||
      configNames.contains (T.casefold (name path)) then "configuration"
  else "source"

/-- The names of a path: its parts without the suffix, and without that of a package's file. -/
def moduleNames (path : String) : List String :=
  let names := (parts path).dropLast ++ [stem path]
  if names.getLast? = some "__init__" then names.dropLast else names

/-- `_module_name` -/
def moduleName (path : String) : String :=
  let joined := ModuleName.dotted (moduleNames path)
  if joined = "" then "__init__" else joined

/-- Whether a file is a package itself. -/
def isPackage (path : String) : Bool := ["__init__.py", "__init__.pyi"].contains (name path)

/-! ## Identifiers -/

/-- The first 24 digits of the SHA-256 of texts, set apart. -/
def shortDigest (texts : List String) : String :=
  let joined := String.ofList (['\x1f'].intercalate (texts.map String.toList))
  String.ofList ((T.hexdigest joined).toList.take 24)

/-- `_node_id` -/
def nodeId (kind : String) (texts : List String) : String :=
  kind ++ ":" ++ shortDigest T (kind :: texts)

/-- `_edge_id` -/
def edgeId (sourceId targetId relation provenance : String) : String :=
  "edge:" ++ shortDigest T [sourceId, targetId, relation, provenance]

/-! ## Edges -/

/-- An edge under construction. -/
structure EdgeAccumulator where
  sourceId : String
  targetId : String
  relation : GraphRelation
  provenance : GraphProvenance
  confidence : Rat
  evidence : List String := []
  resolutionBasis : List String := []
  sourceExpressions : List String := []
deriving DecidableEq

/-- What an edge is found by. -/
def EdgeAccumulator.key (e : EdgeAccumulator) : String × String × GraphRelation × GraphProvenance :=
  (e.sourceId, e.targetId, e.relation, e.provenance)

/-- The edges under construction. -/
abbrev Edges := Table EdgeAccumulator.key

/-- The nodes so far. -/
abbrev Nodes := Table GraphNode.id

/-- A set of texts with a text, where there is one. -/
def withText (texts : List String) : Option String → List String
  | some text => if text = "" then texts else texts.insert text
  | none => texts

/-- `_add_edge` -/
def addEdge (edges : Edges) (sourceId targetId : String) (relation : GraphRelation)
    (provenance : GraphProvenance) (confidence : Rat) (evidence : String)
    (resolutionBasis sourceExpression : Option String) : Edges :=
  let current := (edges.get? (sourceId, targetId, relation, provenance)).getD
    { sourceId, targetId, relation, provenance, confidence }
  edges.put
    { sourceId, targetId, relation, provenance
      confidence := max current.confidence confidence
      evidence := current.evidence.insert evidence
      resolutionBasis := withText current.resolutionBasis resolutionBasis
      sourceExpressions := withText current.sourceExpressions sourceExpression }

/-- A definition, found at a place. -/
def addDefinition (edges : Edges) (sourceId targetId place : String) : Edges :=
  addEdge edges sourceId targetId .defines .extracted 1 place none none

/-! ## Nodes of one file -/

/-- The graph under construction, and what its modules and symbols are found by. -/
structure Assembly where
  nodes : Nodes := Table.empty
  edges : Edges := Table.empty
  moduleIds : Dict String := Table.empty
  pathModules : Dict (String × String) := Table.empty
  pathSymbols : Dict (Dict String) := Table.empty
  qualifiedSymbols : Dict String := Table.empty
  testSuites : Dict String := Table.empty

/-- A place in a file. -/
def place (path : String) (line : Nat) : String := path ++ ":" ++ toString line

/-- Whether definitions are parsed of a file. -/
def SourceFile.isCode (f : SourceFile) : Bool :=
  f.parsed.parserKind == "python" || scriptParsers.contains f.parsed.parserKind

/-- The name of the module a file is. -/
def SourceFile.moduleName (f : SourceFile) : String :=
  if f.parsed.parserKind = "python" then ProjectGraphEngine.moduleName f.path else "js:" ++ f.path

/-- The node of a file. -/
def fileId (f : SourceFile) : String := nodeId T "file" [f.path]

/-- The node of a file's module. -/
def moduleId (f : SourceFile) : String := nodeId T "module" [f.path, f.moduleName]

/-- The node of a symbol. -/
def symbolId (f : SourceFile) (s : SymbolSpec) : String :=
  nodeId T "symbol" [f.path, s.qualifiedName, s.kind]

/-- A node that stands for a whole file. -/
def wholeFile (f : SourceFile) (id : String) (kind : GraphNodeKind) (name : String)
    (language : Option String) (metadata : List (String × GraphMetadataValue)) : GraphNode where
  id := id
  kind := kind.value
  name := name
  filePath := some f.path
  lineStart := some 1
  lineEnd := some f.parsed.lineCount
  language := language
  metadata := metadata
  sourceHash := some f.contentHash

/-- What a file's node says of it. -/
def fileMetadata (f : SourceFile) : List (String × GraphMetadataValue) :=
  [("role", .text (fileRole T f.path)), ("parser", .text f.parsed.parserKind),
    ("extraction_truncated", .flag f.parsed.extractionTruncated),
    ("extraction_diagnostics", .texts f.parsed.diagnostics),
    ("capabilities",
      .texts (if f.isCode then ["definitions", "imports", "call_occurrences"] else []))] ++
    if f.parsed.syntaxError then [("parse_error", .flag true)] else []

/-- The node of a file. -/
def fileNode (f : SourceFile) : GraphNode :=
  wholeFile f (fileId T f) .file (name f.path) (language T f.path) (fileMetadata T f)

/-- A byte offset, if it is known. -/
def offset : Option Nat → GraphMetadataValue
  | some n => .number n
  | none => .null

/-- The node of a symbol. -/
def symbolNode (f : SourceFile) (s : SymbolSpec) : GraphNode where
  id := symbolId T f s
  kind := s.kind
  name := s.name
  filePath := some f.path
  lineStart := some s.lineStart
  lineEnd := some s.lineEnd
  language := language T f.path
  metadata :=
    [("qualified_name", .text (f.moduleName ++ "." ++ s.qualifiedName)),
      ("symbol_kind", .text s.kind), ("byte_start", offset s.byteStart),
      ("byte_end", offset s.byteEnd)]
  sourceHash := some f.contentHash

/-- The symbols of a file by their qualified names. -/
def symbolIds (f : SourceFile) : Dict String :=
  Table.ofList (f.parsed.symbols.map fun s => (s.qualifiedName, symbolId T f s))

/-- A symbol's node, and the name it is found by in all files. -/
def addSymbol (f : SourceFile) (a : Assembly) (s : SymbolSpec) : Assembly :=
  { a with
    nodes := a.nodes.put (symbolNode T f s)
    qualifiedSymbols :=
      a.qualifiedSymbols.put (f.moduleName ++ "." ++ s.qualifiedName, symbolId T f s) }

/-- The node that defines a symbol: that of the symbol around it, if it is there. -/
def parentId (f : SourceFile) (s : SymbolSpec) : String :=
  match s.parentQualifiedName with
  | some parent =>
    if parent = "" then moduleId T f else ((symbolIds T f).find parent).getD (moduleId T f)
  | none => moduleId T f

/-- A symbol is defined by what is around it. -/
def addSymbolEdge (f : SourceFile) (edges : Edges) (s : SymbolSpec) : Edges :=
  addDefinition edges (parentId T f s) (((symbolIds T f).find s.qualifiedName).getD "")
    (place f.path s.lineStart)

/-- The module of a file and its symbols. -/
def addModule (f : SourceFile) (a : Assembly) : Assembly :=
  if f.isCode then
    let a := { a with
      moduleIds := a.moduleIds.put (f.moduleName, moduleId T f)
      pathModules := a.pathModules.put (f.path, f.moduleName, moduleId T f)
      nodes := a.nodes.put (wholeFile f (moduleId T f) .module f.moduleName (language T f.path)
        [("qualified_name", .text f.moduleName)])
      edges := addDefinition a.edges (fileId T f) (moduleId T f) (place f.path 1) }
    let a := f.parsed.symbols.foldl (addSymbol T f) a
    { a with
      pathSymbols := a.pathSymbols.put (f.path, symbolIds T f)
      edges := f.parsed.symbols.foldl (addSymbolEdge T f) a.edges }
  else a

/-- A node a file defines beside its module. -/
def addPart (f : SourceFile) (a : Assembly) (node : GraphNode) : Assembly :=
  { a with
    nodes := a.nodes.put node
    edges := addDefinition a.edges (fileId T f) node.id (place f.path 1) }

/-- The node of a configuration or a document. -/
def addRole (f : SourceFile) (a : Assembly) : Assembly :=
  let format := T.casefold (suffix f.path)
  if fileRole T f.path = "configuration" then
    addPart T f a (wholeFile f (nodeId T "configuration" [f.path]) .configuration (name f.path)
      (language T f.path)
      [("format", .text (if format = "" then T.casefold (name f.path) else format))])
  else if fileRole T f.path = "documentation" then
    addPart T f a (wholeFile f (nodeId T "documentation" [f.path]) .documentation (name f.path)
      none [("format", .text format)])
  else a

/-- The node of a test suite. -/
def suiteId (f : SourceFile) : String := nodeId T "test-suite" [f.path]

/-- The test suite of a file of tests. -/
def addSuite (f : SourceFile) (a : Assembly) : Assembly :=
  if isTestPath T f.path then
    let a := addPart T f a (wholeFile f (suiteId T f) .test (stem f.path) (language T f.path)
      [("symbol_kind", .text "suite")])
    { a with testSuites := a.testSuites.put (f.path, suiteId T f) }
  else a

/-- The first pass, over one file. -/
def addFile (a : Assembly) (f : SourceFile) : Assembly :=
  let a := { a with nodes := a.nodes.put (fileNode T f) }
  addSuite T f (addRole T f (addModule T f a))

/-! ## Imports -/

/-- `_resolve_import` -/
def resolveImport (currentModule importedModule : String) (importedNames : List String)
    (level : Nat) (isPackage : Bool) : String :=
  if level = 0 then importedModule
  else
    let package := ModuleName.split currentModule
    let package := if isPackage then package else package.dropLast
    let package := package.take (package.length - (level - 1))
    if importedModule ≠ "" then ModuleName.dotted (package ++ ModuleName.split importedModule)
    else ModuleName.dotted (package ++ importedNames.head?.toList)

/-- What a script's specifier may stand for. -/
def scriptCandidates (normalized : String) : List String :=
  let extensions := [".ts", ".tsx", ".mts", ".cts", ".js", ".jsx", ".mjs", ".cjs"]
  if suffix normalized = "" then
    normalized :: (extensions.map (normalized ++ ·) ++
      extensions.map (normalized ++ "/index" ++ ·))
  else [normalized]

/-- `_resolve_script_import` -/
def resolveScriptImport (path specifier : String) (pathModules : Dict (String × String)) : String :=
  if ¬ startsWith specifier "." then "js:package:" ++ specifier
  else
    let normalized := normalize ((parts path).dropLast ++ parts specifier)
    let unresolved := "js:unresolved:" ++ path ++ ":" ++ specifier
    if normalized.head? = some ".." ∨ normalized.any (fun part => part.toList.contains '\\') then
      unresolved
    else
      let normalized := if normalized = [] then "." else "/".intercalate normalized
      let found := (scriptCandidates normalized).filterMap fun candidate =>
        ((pathModules.find candidate).map Prod.fst).filter (startsWith · "js:")
      match found with
      | [only] => only
      | _ => unresolved

/-- Whether a file is a script. -/
def SourceFile.isScript (f : SourceFile) : Bool := scriptParsers.contains f.parsed.parserKind

/-- The name of what a file imports. -/
def importedName (pathModules : Dict (String × String)) (f : SourceFile) (item : ImportSpec) :
    String :=
  if f.isScript then resolveScriptImport f.path item.module pathModules
  else resolveImport f.moduleName item.module item.names item.level (isPackage f.path)

/-- The node of a module that is in no file. -/
def externalNode (importedName : String) : GraphNode where
  id := nodeId T "external-module" [importedName]
  kind := GraphNodeKind.module.value
  name := importedName
  metadata :=
    [("external", .flag (¬ startsWith importedName "js:unresolved:")),
      ("reference_type", .text "import")]

/-- A node that is made where it is not there. -/
def setDefault (nodes : Nodes) (node : GraphNode) : Nodes :=
  if nodes.has node.id then nodes else nodes.put node

/-- The node of what imports: a symbol, or the module. -/
def importerId (f : SourceFile) (owner : Option String) : String :=
  match owner with
  | some owner =>
    if owner = "" then moduleId T f else ((symbolIds T f).find owner).getD (moduleId T f)
  | none => moduleId T f

/-- The graph under construction in the second pass. -/
structure Draft where
  nodes : Nodes
  edges : Edges

/-- The test suite of a file tests what the file imports from another one. -/
def addTest (a : Assembly) (f : SourceFile) (edges : Edges) (targetId : String) (known : Bool)
    (line : Nat) : Edges :=
  match a.testSuites.find f.path with
  | some suite =>
    if known ∧ targetId ≠ moduleId T f then
      addEdge edges suite targetId .tests .inferred (3 / 4) (place f.path line) none none
    else edges
  | none => edges

/-- One import: the edge to what is imported, and from the test suite of the file. -/
def addImport (a : Assembly) (f : SourceFile) (d : Draft) (item : ImportSpec) : Draft :=
  let imported := importedName a.pathModules f item
  if imported = "" then d
  else
    let known := a.moduleIds.find imported
    let node := externalNode T imported
    let targetId := known.getD node.id
    let nodes := if known.isSome then d.nodes else setDefault d.nodes node
    let guessed := f.isScript && known.isSome
    let edges := addEdge d.edges (importerId T f item.owner) targetId .imports
      (if guessed then .inferred else .extracted) (if guessed then 3 / 4 else 1)
      (place f.path item.line)
      (some (if guessed then "relative_module_candidate" else "import_syntax"))
      (some item.module)
    ⟨nodes, addTest T a f edges targetId known.isSome item.line⟩

/-! ## Names that are used -/

/-- A node that a name may stand for, and why. -/
structure SymbolResolution where
  targetId : String
  basis : String

/-- The symbols of a file by their qualified names. -/
def scopes (f : SourceFile) : Dict SymbolSpec :=
  Table.ofList (f.parsed.symbols.map fun s => (s.qualifiedName, s))

/-- The symbol around another. -/
def around (f : SourceFile) (s : SymbolSpec) : Option SymbolSpec :=
  (scopes f).find (s.parentQualifiedName.getD "")

/-- A symbol and those around it, from the inside. No symbol is around itself, so there are no
more than the file has. -/
def enclosing (f : SourceFile) : Nat → Option SymbolSpec → List SymbolSpec
  | _, none => []
  | 0, _ => []
  | fuel + 1, some s => s :: enclosing f fuel (around f s)

/-- A reference before its first dot, and after it if it has one. -/
def partition (reference : String) : String × Option String :=
  let head := reference.toList.takeWhile (· ≠ '.')
  match reference.toList.dropWhile (· ≠ '.') with
  | _ :: tail => (String.ofList head, some (String.ofList tail))
  | [] => (String.ofList head, none)

/-- A member of the class around a method, named through its receiver. -/
def classMember (a : Assembly) (f : SourceFile) (symbol : Option SymbolSpec) (reference : String) :
    Option SymbolResolution := do
  let receivers := if f.parsed.parserKind = "python" then ["self.", "cls."] else ["this."]
  let s ← symbol
  let tail ← (partition reference).2
  guard (receivers.any (startsWith reference) ∧ tail ≠ "" ∧ ¬ tail.toList.contains '.')
  let parent ← around f s
  guard (parent.kind = GraphNodeKind.classNode.value)
  let targetId ← a.qualifiedSymbols.find
    (f.moduleName ++ "." ++ parent.qualifiedName ++ "." ++ tail)
  return ⟨targetId, "class_member_candidate"⟩

/-- The first import of an owner that binds a name, and what it binds it to. -/
def boundBy (f : SourceFile) (owner : Option String) (head : String) :
    Option (ImportSpec × String) :=
  (f.parsed.imports.flatMap fun item =>
    if item.owner = owner then
      (item.aliases.filter fun bound => bound.1 = head ∧ (f.isScript ∨ bound.2 ≠ "*")).map
        fun bound => (item, bound.2)
    else []).head?

/-- What an imported name is bound to. -/
def binding (f : SourceFile) (item : ImportSpec) (imported : String) : String :=
  if item.names ≠ [] then
    ModuleName.dotted
      ([resolveImport f.moduleName item.module [] item.level (isPackage f.path), imported].filter
        (· ≠ ""))
  else imported

/-- What a reference may stand for, from the scope of one owner outwards. -/
def resolveIn (a : Assembly) (f : SourceFile) (reference : String) :
    List (Option String) → Option SymbolResolution
  | [] => none
  | owner :: owners =>
    let (head, tail) := partition reference
    match boundBy f owner head with
    | some (item, imported) =>
      if f.isScript then none
      else
        (a.qualifiedSymbols.find
          (binding f item imported ++ ((tail.map ("." ++ ·)).getD ""))).map
            (⟨·, "import_candidate"⟩)
    | none =>
      -- a class namespace is not an enclosing lexical scope for methods
      if (owner.bind (scopes f).find).any (·.kind = GraphNodeKind.classNode.value) then
        resolveIn a f reference owners
      else
        let scope := match owner with
          | some o => if o = "" then f.moduleName else f.moduleName ++ "." ++ o
          | none => f.moduleName
        match a.qualifiedSymbols.find (scope ++ "." ++ reference) with
        | some targetId => some ⟨targetId, "lexical_candidate"⟩
        | none => resolveIn a f reference owners

/-- `_resolve_symbol` -/
def resolveSymbol (a : Assembly) (f : SourceFile) (symbol : Option SymbolSpec)
    (reference : String) : Option SymbolResolution :=
  match classMember a f symbol reference with
  | some resolution => some resolution
  | none =>
    let chain := enclosing f (f.parsed.symbols.length + 1) symbol
    if chain.any fun s => s.boundNames.contains (partition reference).1 then none
    else resolveIn a f reference (chain.map (fun s => some s.qualifiedName) ++ [none])

/-- The node of an occurrence that is not resolved. -/
def referenceNode (f : SourceFile) (sourceId expression : String) (line : Nat)
    (referenceType : String) : GraphNode where
  id := nodeId T "reference" [f.path, sourceId, toString line, expression]
  kind := GraphNodeKind.reference.value
  name := expression
  filePath := some f.path
  lineStart := some line
  lineEnd := some line
  language := language T f.path
  sourceHash := some f.parsed.contentHash
  metadata := [("resolution", .text "unresolved"), ("reference_type", .text referenceType)]

/-- `_add_expression_edge` -/
def addExpressionEdge (a : Assembly) (f : SourceFile) (symbol : Option SymbolSpec)
    (sourceId : String) (relation : GraphRelation) (referenceType : String) (d : Draft)
    (expression : String × Nat) : Draft :=
  let resolution :=
    if f.parsed.extractionTruncated ∨ f.isScript then none
    else resolveSymbol a f symbol expression.1
  match resolution with
  | none =>
    let node := referenceNode T f sourceId expression.1 expression.2 referenceType
    ⟨d.nodes.put node, addEdge d.edges sourceId node.id relation .extracted 1
      (place f.path expression.2) (some "syntax_occurrence") (some expression.1)⟩
  | some r =>
    ⟨d.nodes, addEdge d.edges sourceId r.targetId relation .inferred (3 / 4)
      (place f.path expression.2) (some r.basis) (some expression.1)⟩

/-- `_add_call`, over the calls of a symbol or a module. -/
def addCalls (a : Assembly) (f : SourceFile) (symbol : Option SymbolSpec) (sourceId : String)
    (calls : List CallSpec) (d : Draft) : Draft :=
  (calls.map fun call => (call.name, call.line)).foldl
    (addExpressionEdge T a f symbol sourceId .calls "call") d

/-- What a symbol calls, extends and implements. -/
def addUses (a : Assembly) (f : SourceFile) (d : Draft) (s : SymbolSpec) : Draft :=
  let sourceId := ((symbolIds T f).find s.qualifiedName).getD ""
  let d := addCalls T a f (some s) sourceId s.calls d
  if s.kind = GraphNodeKind.classNode.value ∨ s.kind = GraphNodeKind.interface.value then
    let d := (s.bases.map fun base => (base, s.lineStart)).foldl
      (addExpressionEdge T a f (some s) sourceId .extends "inheritance") d
    (s.implements.map fun base => (base, s.lineStart)).foldl
      (addExpressionEdge T a f (some s) sourceId .implements "implementation") d
  else d

/-- The second pass, over one file. -/
def linkFile (a : Assembly) (d : Draft) (f : SourceFile) : Draft :=
  if f.isCode then
    let d := f.parsed.imports.foldl (addImport T a f) d
    let d := addCalls T a f none (moduleId T f) f.parsed.moduleCalls d
    f.parsed.symbols.foldl (addUses T a f) d
  else d

/-! ## The graph -/

/-- An edge as it stands in the graph. -/
def EdgeAccumulator.edge (e : EdgeAccumulator) : GraphEdge where
  id := edgeId T e.sourceId e.targetId e.relation.value e.provenance.value
  sourceId := e.sourceId
  targetId := e.targetId
  relation := e.relation.value
  provenance := e.provenance
  confidence := e.confidence
  evidence := e.evidence.insertionSort (· ≤ ·)
  resolutionBasis := e.resolutionBasis.insertionSort (· ≤ ·)
  sourceExpressions := e.sourceExpressions.insertionSort (· ≤ ·)

/-- Texts in their order, the first that differ counting. -/
def textsBefore : List String → List String → Bool
  | [], _ => true
  | _ :: _, [] => false
  | s :: l, t :: m => s < t ∨ (s = t ∧ textsBefore l m)

/-- The order of the edges. -/
def EdgeAccumulator.before (e e' : EdgeAccumulator) : Bool :=
  textsBefore [e.sourceId, e.targetId, e.relation.value, e.provenance.value]
    [e'.sourceId, e'.targetId, e'.relation.value, e'.provenance.value]

/-- The first pass. -/
def assembly (sources : Sources) : Assembly := sources.files.foldl (addFile T) {}

/-- Both passes. -/
def draft (sources : Sources) : Draft :=
  let a := assembly T sources
  sources.files.foldl (linkFile T a) ⟨a.nodes, a.edges⟩

/-- `_assemble` -/
def assemble (parserVersion : String) (now : Time) (sources : Sources) : ProjectGraph where
  schemaVersion := 1
  parserVersion := parserVersion
  generatedAt := now
  nodes := (draft T sources).nodes.entries.insertionSort fun m n => m.id ≤ n.id
  edges := ((draft T sources).edges.entries.insertionSort fun e e' => e.before e').map
    (EdgeAccumulator.edge T)

end ProjectGraphEngine

end Orqalis
