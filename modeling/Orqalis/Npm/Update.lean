import Orqalis.Lib.Compact
import Orqalis.Npm.Precedence

/-!
# The updater

`orqalis update` looks up the released version, compares it with the installed one, and lets npm
install it where the installed one is older. What it finds outside is a `Host`: the platform's
path functions, the files, the environment, npm and its answers. A run is the effects it has and
what it answers. JSON is read as everywhere here: a document that names half a surrogate pair,
which no version has, is refused.

Every call of npm is the lookup or the installation of a version that the installed one precedes
(`update_installs_newer`).
-/

namespace Orqalis

open Lib SemVer

namespace Npm

/-! ## Hosts and runs -/

/-- The settings of a call of npm. -/
structure Settings where
  env : List (List Char × List Char)
  npmPath : List Char
  capture : Bool
deriving DecidableEq

structure NpmAnswer where
  status : Int
  stdout : List Char

/-- What the updater finds outside. A function that fails throws an error with a message. -/
structure Host where
  win32 : Bool
  resolve : List Char → List Char
  dirname : List Char → List Char
  basename : List Char → List Char
  join : List (List Char) → List Char
  access : List Char → Except String Unit
  readFile : List Char → Except String (List Char)
  env : List (List Char × List Char)
  locateNpm : Except String (List Char)
  invokeNpm : List (List Char) → Settings → Except String NpmAnswer

inductive Effect
  | stdout (text : String)
  | stderr (text : String)
  | npm (args : List (List Char)) (settings : Settings)
deriving DecidableEq

/-- The effects of a run and the code it exits with, or the error it throws. -/
structure Run where
  effects : List Effect
  result : Except String Nat

namespace Run

def exit (code : Nat) : Run := ⟨[], .ok code⟩

def throw (message : String) : Run := ⟨[], .error message⟩

/-- An effect, and then the rest of the run. -/
def after (e : Effect) (rest : Run) : Run := ⟨e :: rest.effects, rest.result⟩

/-- A value that is found or an error that is thrown. -/
def await {α : Type} (m : Except String α) (next : α → Run) : Run :=
  match m with
  | .error message => throw message
  | .ok a => next a

/-- The arguments of the calls of npm. -/
def npmCalls (run : Run) : List (List (List Char)) :=
  run.effects.filterMap fun e =>
    match e with
    | .npm args _ => some args
    | _ => none

end Run

/-! ## The updater -/

def PACKAGE : List Char := "orqalis".toList

def REGISTRY : List Char := "https://registry.npmjs.org/".toList

def UPDATE_USAGE : String := "Usage: orqalis update [--check]\n"

/-- `toLowerCase`, as far as it can give one of the names compared with. -/
def toLowerCase (s : List Char) : List Char := s.map Char.toLower

def notGlobal : String :=
  "Update requires an npm global installation of orqalis; run npm install -g orqalis@latest " ++
    "instead."

/-- `installedPrefix` -/
def installedPrefix (host : Host) (packageRoot : List Char) : Except String (List Char) :=
  let root := host.resolve packageRoot
  let modules := host.dirname root
  let lib := host.dirname modules
  if toLowerCase (host.basename root) ≠ PACKAGE ∨
      toLowerCase (host.basename modules) ≠ "node_modules".toList then .error notGlobal
  else if host.win32 then .ok lib
  else if host.basename lib ≠ "lib".toList then .error notGlobal
  else .ok (host.dirname lib)

/-- The command that npm put on the path. -/
def shim (host : Host) (installRoot : List Char) : List Char :=
  if host.win32 then host.join [installRoot, "orqalis.cmd".toList]
  else host.join [installRoot, "bin".toList, PACKAGE]

/-- A property of a value; the last member of a name counts. -/
def property (name : String) : Json → Option Json
  | .obj members => members.reverse.lookup name.toList
  | _ => none

/-- The version that the package's own metadata tell. -/
def installedVersion (host : Host) (packageRoot : List Char) : Except String (List Char) :=
  (host.readFile (host.join [packageRoot, "package.json".toList])).bind fun text =>
    match Json.loads text with
    | none => .error "SyntaxError"
    | some .null => .error "TypeError"
    | some metadata =>
      match property "name" metadata, property "version" metadata with
      | some (.str name), some (.str version) =>
        if name = PACKAGE then .ok version
        else .error "Installed npm package metadata is invalid."
      | _, _ => .error "Installed npm package metadata is invalid."

/-- The white space of `trim`. -/
def jsSpace (c : Char) : Bool :=
  let n := c.toNat
  (9 ≤ n && n ≤ 13) || n = 0x20 || n = 0xA0 || n = 0x1680 || (0x2000 ≤ n && n ≤ 0x200A) ||
    n = 0x2028 || n = 0x2029 || n = 0x202F || n = 0x205F || n = 0x3000 || n = 0xFEFF

/-- `trim` -/
def trim (s : List Char) : List Char :=
  ((s.dropWhile jsSpace).reverse.dropWhile jsSpace).reverse

def invalidLatest : String := "npm returned an invalid latest-version response."

/-- The version in the answer of npm, by itself or in an array of one. -/
def latestVersion (stdout : List Char) : Except String (List Char) :=
  match Json.loads (trim stdout) with
  | some (.str latest) => .ok latest
  | some (.arr [.str latest]) => .ok latest
  | _ => .error invalidLatest

/-- The environment, with npm's directory set to where the package is installed. -/
def npmEnv (host : Host) (installRoot : List Char) : List (List Char × List Char) :=
  host.env.filter (fun e => toLowerCase e.1 ≠ "npm_config_prefix".toList) ++
    [("npm_config_prefix".toList, installRoot)]

/-- The arguments of the lookup. -/
def viewArgs : List (List Char) :=
  ["view".toList, "orqalis@latest".toList, "version".toList, "--json".toList,
    "--registry=".toList ++ REGISTRY]

/-- The arguments of the installation. -/
def installArgs (latest : List Char) : List (List Char) :=
  ["install".toList, "-g".toList, "orqalis@".toList ++ latest, "--registry=".toList ++ REGISTRY,
    "--ignore-scripts".toList, "--no-audit".toList, "--no-fund".toList]

/-- What follows the comparison. -/
def applyUpdate (host : Host) (args : List (List Char)) (installRoot npmPath installed
    latest : List Char) (order : Sign) : Run :=
  .after (.stdout ("Installed: " ++ String.ofList installed ++ " | npm latest: " ++
    String.ofList latest ++ "\n")) <|
  if order = .zero ∨ order = .positive then
    .after (.stdout (if order = .zero then "Orqalis is up to date.\n"
      else "Installed version is newer than npm latest; no downgrade was performed.\n")) (.exit 0)
  else if args.head? = some "--check".toList then
    .after (.stdout "An update is available. Run orqalis update to install it.\n") (.exit 0)
  else
    .after (.stderr ("Before updating, stop active Orqalis UI/MCP processes, reach a safe run " ++
      "checkpoint, and back up project .orqalis/ directories.\n")) <|
    .after (.npm (installArgs latest) ⟨npmEnv host installRoot, npmPath, false⟩) <|
    .await (host.invokeNpm (installArgs latest) ⟨npmEnv host installRoot, npmPath, false⟩)
      fun install =>
    if install.status ≠ 0 then
      .throw ("npm update failed (exit " ++ toString install.status ++
        "); the installed version was not verified.")
    else
      .after (.stdout ("Package update completed. Run orqalis --version and orqalis doctor in " ++
        "each initialized project; then restart the UI and reconnect MCP clients.\n")) (.exit 0)

/-- `runUpdate` -/
def runUpdate (host : Host) (packageRoot : List Char) (args : List (List Char)) : Run :=
  if args.contains "--help".toList ∨ args.contains "-h".toList then
    .after (.stdout UPDATE_USAGE) <|
    .after (.stdout ("Check the public npm release or install it into this Orqalis global " ++
      "prefix.\n")) (.exit 0)
  else if 1 < args.length ∨ args.length = 1 ∧ args.head? ≠ some "--check".toList then
    .after (.stderr UPDATE_USAGE) (.exit 2)
  else
    .await (installedPrefix host packageRoot) fun installRoot =>
    .await (host.access (shim host installRoot)) fun _ =>
    .await (installedVersion host packageRoot) fun installed =>
    .await host.locateNpm fun npmPath =>
    .after (.npm viewArgs ⟨npmEnv host installRoot, npmPath, true⟩) <|
    .await (host.invokeNpm viewArgs ⟨npmEnv host installRoot, npmPath, true⟩) fun lookup =>
    if lookup.status ≠ 0 then
      .throw ("Could not check the public npm release (npm exit " ++ toString lookup.status ++
        ").")
    else
      .await (latestVersion lookup.stdout) fun latest =>
      .await (compareVersions installed latest) fun order =>
      applyUpdate host args installRoot npmPath installed latest order

/-! ## The calls of npm -/

namespace Run

@[simp] theorem npmCalls_exit (code : Nat) : (exit code).npmCalls = [] := rfl

@[simp] theorem npmCalls_throw (message : String) : (throw message).npmCalls = [] := rfl

@[simp] theorem npmCalls_stdout (text : String) (rest : Run) :
    (after (.stdout text) rest).npmCalls = rest.npmCalls := rfl

@[simp] theorem npmCalls_stderr (text : String) (rest : Run) :
    (after (.stderr text) rest).npmCalls = rest.npmCalls := rfl

@[simp] theorem npmCalls_npm (args : List (List Char)) (settings : Settings) (rest : Run) :
    (after (.npm args settings) rest).npmCalls = args :: rest.npmCalls := rfl

theorem await_ok {α : Type} (a : α) (next : α → Run) : await (.ok a) next = next a := rfl

/-- A call after a value that was to be found is one after it was found. -/
theorem mem_npmCalls_await {α : Type} {m : Except String α} {next : α → Run}
    {call : List (List Char)} (h : call ∈ (await m next).npmCalls) :
    ∃ a, m = .ok a ∧ call ∈ (next a).npmCalls := by
  cases m with
  | error message => cases h
  | ok a => exact ⟨a, rfl, h⟩

end Run

variable {host : Host} {packageRoot : List Char} {args : List (List Char)}

/-- What follows the comparison installs only where the installed version is found older. -/
theorem npmCalls_applyUpdate {installRoot npmPath installed latest : List Char} {order : Sign}
    {call : List (List Char)}
    (h : call ∈ (applyUpdate host args installRoot npmPath installed latest order).npmCalls) :
    call = installArgs latest ∧ ¬ (order = .zero ∨ order = .positive) := by
  unfold applyUpdate at h
  rw [Run.npmCalls_stdout] at h
  by_cases horder : order = .zero ∨ order = .positive
  · rw [if_pos horder] at h
    simp at h
  rw [if_neg horder] at h
  split_ifs at h with hcheck
  · simp at h
  rw [Run.npmCalls_stderr, Run.npmCalls_npm] at h
  rcases List.mem_cons.mp h with rfl | h
  · exact ⟨rfl, horder⟩
  · obtain ⟨install, -, hrest⟩ := Run.mem_npmCalls_await h
    split_ifs at hrest <;> simp at hrest

/-- A call of npm is the lookup, or it installs a version that the comparison found newer. -/
theorem npmCalls_runUpdate {call : List (List Char)}
    (h : call ∈ (runUpdate host packageRoot args).npmCalls) :
    call = viewArgs ∨ ∃ installed latest order, call = installArgs latest ∧
      installedVersion host packageRoot = .ok installed ∧
      compareVersions installed latest = .ok order ∧ ¬ (order = .zero ∨ order = .positive) := by
  unfold runUpdate at h
  split_ifs at h with hhelp hargs
  · simp at h
  · simp at h
  obtain ⟨installRoot, -, h⟩ := Run.mem_npmCalls_await h
  obtain ⟨-, -, h⟩ := Run.mem_npmCalls_await h
  obtain ⟨installed, hinstalled, h⟩ := Run.mem_npmCalls_await h
  obtain ⟨npmPath, -, h⟩ := Run.mem_npmCalls_await h
  rw [Run.npmCalls_npm] at h
  rcases List.mem_cons.mp h with rfl | h
  · exact .inl rfl
  obtain ⟨lookup, -, h⟩ := Run.mem_npmCalls_await h
  split_ifs at h with hstatus
  · simp at h
  obtain ⟨latest, -, h⟩ := Run.mem_npmCalls_await h
  obtain ⟨order, horder, h⟩ := Run.mem_npmCalls_await h
  obtain ⟨rfl, hnewer⟩ := npmCalls_applyUpdate h
  exact .inr ⟨installed, latest, order, rfl, hinstalled, horder, hnewer⟩

/-! ## Precedence -/

/-- The other way round. -/
def Sign.negate : Sign → Sign
  | .negative => .positive
  | .zero => .zero
  | .positive => .negative
  | .nan => .nan

/-- The comparison answers that the first text is not after the second. -/
def AtMost (s t : List Char) : Prop :=
  compareVersions s t = .ok .negative ∨ compareVersions s t = .ok .zero

variable {s t u : List Char} {a b c : Version}

/-- The answer of a comparison is the precedence of the two versions. -/
theorem compareVersions_iff (hs : Reads s a) (ht : Reads t b) (ha : ExactNumbers a)
    (hb : ExactNumbers b) :
    (compareVersions s t = .ok .negative ↔ a.Precedes b) ∧
      (compareVersions s t = .ok .zero ↔ a.Equivalent b) ∧
      (compareVersions s t = .ok .positive ↔ b.Precedes a) := by
  obtain ⟨sign, hsign, hdecides⟩ := compareVersions_decides hs ht ha hb
  rw [hsign]
  cases hdecides with
  | negative h => simp [h, h.not_equivalent, h.asymm]
  | zero h =>
    have hab : ¬ a.Precedes b := fun h' => h'.not_equivalent h
    have hba : ¬ b.Precedes a := fun h' => h'.not_equivalent h.symm
    simp [h, hab, hba]
  | positive h =>
    have hne : ¬ a.Equivalent b := fun h' => h.not_equivalent h'.symm
    simp [h, hne, h.asymm]

theorem compareVersions_swap (hs : Reads s a) (ht : Reads t b) (ha : ExactNumbers a)
    (hb : ExactNumbers b) : ∃ sign, compareVersions s t = .ok sign ∧
      compareVersions t s = .ok sign.negate ∧ sign ≠ .nan := by
  obtain ⟨sign, hsign, hdecides⟩ := compareVersions_decides hs ht ha hb
  obtain ⟨hnegative, hzero, hpositive⟩ := compareVersions_iff ht hs hb ha
  refine ⟨sign, hsign, ?_⟩
  cases hdecides with
  | negative h => exact ⟨hpositive.mpr h, by decide⟩
  | zero h => exact ⟨hzero.mpr h.symm, by decide⟩
  | positive h => exact ⟨hnegative.mpr h, by decide⟩

/-- A text is not after another exactly where its version does not come after the other's. -/
theorem atMost_iff (hs : Reads s a) (ht : Reads t b) (ha : ExactNumbers a)
    (hb : ExactNumbers b) : AtMost s t ↔ a.Precedes b ∨ a.Equivalent b := by
  obtain ⟨hnegative, hzero, -⟩ := compareVersions_iff hs ht ha hb
  exact or_congr hnegative hzero

theorem AtMost.trans (hs : Reads s a) (ht : Reads t b) (hu : Reads u c) (ha : ExactNumbers a)
    (hb : ExactNumbers b) (hc : ExactNumbers c) (hst : AtMost s t) (htu : AtMost t u) :
    AtMost s u := by
  rw [atMost_iff hs hu ha hc]
  rcases (atMost_iff hs ht ha hb).mp hst with hab | hab
  · rcases (atMost_iff ht hu hb hc).mp htu with hbc | hbc
    · exact .inl (hab.trans hbc)
    · exact .inl (hab.congr hbc)
  · rcases (atMost_iff ht hu hb hc).mp htu with hbc | hbc
    · exact .inl (hab.precedes hbc)
    · exact .inr (hab.trans hbc)

/-- A call of npm is the lookup, or it installs a version that the installed one precedes, as far
as their numbers are exact. -/
def Justified (host : Host) (packageRoot : List Char) (call : List (List Char)) : Prop :=
  call = viewArgs ∨ ∃ installed latest, call = installArgs latest ∧
    installedVersion host packageRoot = .ok installed ∧
    ∃ v w, Reads installed v ∧ Reads latest w ∧
      (ExactNumbers v → ExactNumbers w → v.Precedes w)

/-- The updater installs what the installed version precedes. -/
theorem npmCalls_justified {call : List (List Char)}
    (h : call ∈ (runUpdate host packageRoot args).npmCalls) :
    Justified host packageRoot call := by
  rcases npmCalls_runUpdate h with rfl | ⟨installed, latest, order, rfl, hinstalled, horder, hnewer⟩
  · exact .inl rfl
  obtain ⟨⟨v, hv⟩, w, hw⟩ := compareVersions_isOk.mp ⟨order, horder⟩
  refine .inr ⟨installed, latest, rfl, hinstalled, v, w, hv, hw, fun hexact hexact' => ?_⟩
  obtain ⟨sign, hsign, hdecides⟩ := compareVersions_decides hv hw hexact hexact'
  obtain rfl := Except.ok.inj (horder.symm.trans hsign)
  cases hdecides with
  | negative h => exact h
  | zero => exact absurd (.inl rfl) hnewer
  | positive => exact absurd (.inr rfl) hnewer

/-- The comparison is a total preorder, the precedence of versions, and every call of npm that
the updater makes is the lookup or installs a version that the installed one precedes. -/
theorem update_installs_newer (hs : Reads s a) (ht : Reads t b) (hu : Reads u c)
    (ha : ExactNumbers a) (hb : ExactNumbers b) (hc : ExactNumbers c) :
    (∀ x y, (∃ sign, compareVersions x y = .ok sign) ↔ (∃ v, Reads x v) ∧ ∃ w, Reads y w) ∧
    ((compareVersions s t = .ok .negative ↔ a.Precedes b) ∧
      (compareVersions s t = .ok .zero ↔ a.Equivalent b) ∧
      (compareVersions s t = .ok .positive ↔ b.Precedes a)) ∧
    (∃ sign, compareVersions s t = .ok sign ∧ compareVersions t s = .ok sign.negate ∧
      sign ≠ .nan) ∧
    (AtMost s t → AtMost t u → AtMost s u) ∧
    ∀ (host : Host) (packageRoot : List Char) (args : List (List Char)),
      ∀ call ∈ (runUpdate host packageRoot args).npmCalls, Justified host packageRoot call :=
  ⟨fun _ _ => compareVersions_isOk, compareVersions_iff hs ht ha hb,
    compareVersions_swap hs ht ha hb, AtMost.trans hs ht hu ha hb hc,
    fun _ _ _ _ => npmCalls_justified⟩

/-! ### An installation -/

/-- The parts of version 1.0.0, of a pre-release or a build of it. -/
def sampleParts (preRelease build : Option (List Char)) : Parts :=
  ⟨['1'], ['0'], ['0'], preRelease, build⟩

/-- Paths with slashes. -/
def sampleSplit (path : List Char) : List (List Char) := path.splitOn '/'

/-- The metadata of the second beta. -/
def sampleMetadata : Json :=
  .obj [("name".toList, .str PACKAGE), ("version".toList, .str "1.0.0-beta.2".toList)]

/-- A host with the second beta installed, where the release is out. -/
def sampleHost : Host where
  win32 := false
  resolve path := path
  dirname path := ['/'].intercalate (sampleSplit path).dropLast
  basename path := (sampleSplit path).getLastD []
  join parts := ['/'].intercalate parts
  access _ := .ok ()
  readFile _ := .ok (Json.compact Json.escape sampleMetadata)
  env := []
  locateNpm := .ok "/usr/local/bin/npm".toList
  invokeNpm args _ := .ok ⟨0, if args = viewArgs then "[\"1.0.0\"]\n".toList else []⟩

theorem sampleHost_installed (packageRoot : List Char) :
    installedVersion sampleHost packageRoot = .ok "1.0.0-beta.2".toList := by
  have hread : sampleHost.readFile (sampleHost.join [packageRoot, "package.json".toList]) =
      .ok (Json.compact Json.escape sampleMetadata) := rfl
  unfold installedVersion
  rw [hread]
  simp only [Except.bind, Json.loads_compact Json.readsBack_escape]
  decide

/-- The lookup and the installation. -/
theorem sampleHost_calls :
    (runUpdate sampleHost "/opt/npm/lib/node_modules/orqalis".toList []).npmCalls =
      [viewArgs, installArgs "1.0.0".toList] := by
  have hroot : installedPrefix sampleHost "/opt/npm/lib/node_modules/orqalis".toList =
      .ok "/opt/npm".toList := by decide
  have hlatest : latestVersion "[\"1.0.0\"]\n".toList = .ok "1.0.0".toList := by decide
  have horder : compareVersions "1.0.0-beta.2".toList "1.0.0".toList = .ok .negative := by decide
  have haccess : ∀ path, sampleHost.access path = .ok () := fun _ => rfl
  have hlocate : sampleHost.locateNpm = .ok "/usr/local/bin/npm".toList := rfl
  have hview : ∀ settings, sampleHost.invokeNpm viewArgs settings =
      .ok ⟨0, "[\"1.0.0\"]\n".toList⟩ := fun _ => by
    simp only [sampleHost, if_true]
  have hinstall : ∀ settings, sampleHost.invokeNpm (installArgs "1.0.0".toList) settings =
      .ok ⟨0, []⟩ := fun _ => by
    simp only [sampleHost]
    rw [if_neg (by decide)]
  unfold runUpdate
  rw [if_neg (by decide), if_neg (by decide), hroot, Run.await_ok, haccess, Run.await_ok,
    sampleHost_installed, Run.await_ok, hlocate, Run.await_ok, Run.npmCalls_npm, hview,
    Run.await_ok, if_neg (by decide), hlatest, Run.await_ok, horder, Run.await_ok]
  unfold applyUpdate
  rw [Run.npmCalls_stdout, if_neg (by decide), if_neg (by decide), Run.npmCalls_stderr,
    Run.npmCalls_npm, hinstall, Run.await_ok, if_neg (by decide)]
  rfl

theorem sampleParts_reads {preRelease build : Option (List Char)}
    (hpre : ∀ s ∈ preRelease, IsIdentifiers s) (hbuild : ∀ s ∈ build, IsIdentifiers s) :
    Reads (sampleParts preRelease build).text (sampleParts preRelease build).version :=
  ⟨_, ⟨rfl, rfl, rfl, hpre, hbuild⟩, rfl, rfl⟩

theorem sampleParts_exact {preRelease : Option (List Char)} (build : Option (List Char))
    (h : ∀ n, .numeric n ∈ identifiers preRelease → n < 2 ^ 53) :
    ExactNumbers (sampleParts preRelease build).version := by
  refine ⟨fun n hn => exact_of_lt ?_, fun n hn => exact_of_lt (h n hn)⟩
  have hcore : ∀ n ∈ [1, 0, 0], n < 2 ^ 53 := by decide
  exact hcore n hn

/-- The pre-releases of the samples. -/
theorem sampleBeta_exact {s : List Char} {m : Nat} (hm : m < 2 ^ 53)
    (h : identifiers (some s) = [.alphanumeric "beta".toList, .numeric m])
    (build : Option (List Char)) : ExactNumbers (sampleParts (some s) build).version := by
  refine sampleParts_exact build fun n hn => ?_
  rw [h] at hn
  rcases List.mem_cons.mp hn with heq | hn
  · cases heq
  · cases List.mem_singleton.mp hn
    exact hm

theorem none_identifiers : ∀ s ∈ (none : Option (List Char)), IsIdentifiers s := by
  rintro s ⟨⟩

/-- The second beta precedes the tenth and is not after the release, which it is updated to. -/
theorem sample_update_installs_newer :
    (sampleParts (some "beta.2".toList) none).version.Precedes
        (sampleParts (some "beta.10".toList) (some "linux".toList)).version ∧
      AtMost "1.0.0-beta.2".toList "1.0.0".toList ∧
      Justified sampleHost "/opt/npm/lib/node_modules/orqalis".toList
        (installArgs "1.0.0".toList) := by
  have htwo : identifiers (some "beta.2".toList) =
      [.alphanumeric "beta".toList, .numeric 2] := by decide
  have hten : identifiers (some "beta.10".toList) =
      [.alphanumeric "beta".toList, .numeric 10] := by decide
  have hbeta : ∀ s ∈ some "beta.2".toList, IsIdentifiers s := by
    rintro s ⟨⟩
    exact ⟨by decide, by decide⟩
  have hbeta' : ∀ s ∈ some "beta.10".toList, IsIdentifiers s := by
    rintro s ⟨⟩
    exact ⟨by decide, by decide⟩
  have hlinux : ∀ s ∈ some "linux".toList, IsIdentifiers s := by
    rintro s ⟨⟩
    exact ⟨by decide, by decide⟩
  have hrelease : ∀ n, .numeric n ∈ identifiers none → n < 2 ^ 53 := by
    rintro n ⟨⟩
  have hall := update_installs_newer (sampleParts_reads hbeta none_identifiers)
    (sampleParts_reads hbeta' hlinux) (sampleParts_reads none_identifiers none_identifiers)
    (sampleBeta_exact (by decide) htwo none) (sampleBeta_exact (by decide) hten _)
    (sampleParts_exact none hrelease)
  obtain ⟨-, ⟨hprecedes, -⟩, -, htrans, hcalls⟩ := hall
  refine ⟨hprecedes.mp (by decide), htrans (.inl (by decide)) (.inl (by decide)), ?_⟩
  refine hcalls sampleHost _ [] _ ?_
  rw [sampleHost_calls]
  exact List.mem_cons_of_mem _ List.mem_cons_self

end Npm

end Orqalis
