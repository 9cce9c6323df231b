import DepLock.Foreign.Conversion
import DepLock.Yaml.Node

/-!
# glide

glide keeps a configuration `glide.yaml` and, beside it, a lock `glide.lock`. The configuration says
which versions are acceptable and the lock which revisions are in use. Entries for tests count like
others.
-/

namespace DepLock

/-- How the import of a tool's files went. -/
structure Imported where
  result : Except ImportError (Manifest × Lock)
  log : Log := []

/-- The YAML document of a tool's file; a blank file is an empty one. -/
def FileTree.readYaml (t : FileTree) (path : String) : Except ImportError Yaml.Document := do
  let text ← t.readForeign path
  if Text.trim text = "" then .ok { root := none }
  else match Yaml.Document.ofText? text with
    | some d => .ok d
    | none => .error (.unparsable path)

namespace Glide

/-- A dependency in a configuration. -/
structure Wanted where
  package : String
  repo : String
  version : String
  subpackages : List String
  os : List String
  arch : List String

/-- A configuration. -/
structure Config where
  package : String
  ignore : List String
  excludeDirs : List String
  imports : List Wanted
  testImports : List Wanted

/-- A dependency in a lock. -/
structure Locked where
  name : String
  repo : String
  version : String

/-- A lock. -/
structure LockFile where
  imports : List Locked := []
  testImports : List Locked := []

/-- The dependency that a node of a configuration describes. -/
def Wanted.ofNode? (d : Yaml.Document) (x : Yaml.Node) : Option Wanted := do
  let fields ← d.fields? ["package", "repo", "version", "subpackages", "os", "arch"] x
  some { package := ← fields.getOr "package" "" d.string?
         repo := ← fields.getOr "repo" "" d.string?
         version := ← fields.getOr "version" "" d.string?
         subpackages := ← fields.getOr "subpackages" [] d.strings?
         os := ← fields.getOr "os" [] d.strings?
         arch := ← fields.getOr "arch" [] d.strings? }

/-- The configuration that a document describes. -/
def Config.ofDocument? (d : Yaml.Document) : Option Config := do
  let fields ← d.rootFields? ["package", "ignore", "excludeDirs", "import", "testImport"]
  let wanted (x : Yaml.Node) := (d.elements? x).bind fun xs => xs.mapM (Wanted.ofNode? d)
  some { package := ← fields.getOr "package" "" d.string?
         ignore := ← fields.getOr "ignore" [] d.strings?
         excludeDirs := ← fields.getOr "excludeDirs" [] d.strings?
         imports := ← fields.getOr "import" [] wanted
         testImports := ← fields.getOr "testImport" [] wanted }

/-- The dependency that a node of a lock describes. -/
def Locked.ofNode? (d : Yaml.Document) (x : Yaml.Node) : Option Locked := do
  let fields ← d.fields? ["name", "repo", "version"] x
  some { name := ← fields.getOr "name" "" d.string?
         repo := ← fields.getOr "repo" "" d.string?
         version := ← fields.getOr "version" "" d.string? }

/-- The lock that a document describes. -/
def LockFile.ofDocument? (d : Yaml.Document) : Option LockFile := do
  let fields ← d.rootFields? ["imports", "testImports"]
  let locked (x : Yaml.Node) := (d.elements? x).bind fun xs => xs.mapM (Locked.ofNode? d)
  some { imports := ← fields.getOr "imports" [] locked
         testImports := ← fields.getOr "testImports" [] locked }

/-- The path of the configuration of a project. -/
def configPath (directory : String) : String := Path.join directory "glide.yaml"

/-- The path of the lock of a project. -/
def lockPath (directory : String) : String := Path.join directory "glide.lock"

/-- The configuration in a file. -/
def readConfig (files : FileTree) (path : String) : Except ImportError Config := do
  match Config.ofDocument? (← files.readYaml path) with
  | some config => .ok config
  | none => .error (.unparsable path)

/-- The lock in a file, if there is such a file. -/
def readLock (files : FileTree) (path : String) : Except ImportError LockFile := do
  if files.isFile path then
    match LockFile.ofDocument? (← files.readYaml path) with
    | some lock => .ok lock
    | none => .error (.unparsable path)
  else .ok {}

/-- All dependencies in a configuration. -/
def Config.wanted (config : Config) : List Wanted := config.imports ++ config.testImports

/-- All dependencies in a lock. -/
def LockFile.locked (lock : LockFile) : List Locked := lock.imports ++ lock.testImports

/-- What cannot be taken over from a dependency in a configuration. -/
def Wanted.warnings (w : Wanted) : Log :=
  let unsupported (what : String) : Message :=
    .warn s!"The {w.package} package specified an {what}, but that is not supported; ignoring {what}"
  (if w.os = [] then [] else [unsupported "os"])
    ++ (if w.arch = [] then [] else [unsupported "arch"])
    ++ (if w.subpackages = [] then []
        else [.detail .skipped s!"subpackages of {w.package}; imports decide which are used"])

/-- The entry of a dependency in a configuration. -/
def Wanted.toEntry (w : Wanted) : Except ImportError ForeignEntry :=
  if w.package = "" then .error (.missingField .glide .configuration "Name")
  else .ok { name := w.package, source := w.repo, constraintHint := w.version }

/-- The entry of a dependency in a lock. -/
def Locked.toEntry (l : Locked) : Except ImportError ForeignEntry :=
  if l.name = "" then .error (.missingField .glide .lock "Name")
  else .ok { name := l.name, source := l.repo, lockHint := l.version }

/-- The entries of a configuration and a lock. -/
def entries (config : Config) (lock : LockFile) : Except ImportError (List ForeignEntry) := do
  let wanted ← config.wanted.mapM Wanted.toEntry
  let locked ← lock.locked.mapM Locked.toEntry
  .ok (wanted ++ locked)

/-- The warnings about a configuration, up to the first dependency without a name. -/
def warnings (config : Config) : Log :=
  (config.wanted.takeWhile (·.package ≠ "")).flatMap Wanted.warnings

/-- The packages in a directory that the configuration leaves out. -/
def excluded (root : ProjectRoot) (directory : String) : String :=
  root.text ++ "/" ++ Text.trimStartChar '/' (Text.trimEndChar '/' directory)

/-- The warning that directories are left out of another project than the configuration thinks. -/
def rootWarning (config : Config) (root : ProjectRoot) : Log :=
  if config.excludeDirs = [] || config.package = "" || config.package = root.text then []
  else [.warn s!"Glide thinks the package is '{config.package}' but the project root is '{root.text}'; using '{root.text}' for excluded directories"]

/-- The manifest and the lock of a configuration and a lock. -/
def convert (sm : SourceManager) (root : ProjectRoot) (config : Config) (lock : LockFile) :
    Imported :=
  let log := warnings config
  match entries config lock with
  | .error e => ⟨.error e, log⟩
  | .ok es => match Conversion.addEntries sm false es {} with
    | .error e => ⟨.error e, log⟩
    | .ok (c, more) =>
      let ignored := c.manifest.ignored ++ config.ignore ++ config.excludeDirs.map (excluded root)
      ⟨.ok ({ c.manifest with ignored }, c.lock), log ++ more ++ rootWarning config root⟩

/-- The import of the files in a directory. -/
def importFrom (files : FileTree) (sm : SourceManager) (directory : String) (root : ProjectRoot) :
    Imported :=
  match readConfig files (configPath directory) with
  | .error e => ⟨.error e, []⟩
  | .ok config => match readLock files (lockPath directory) with
    | .error e => ⟨.error e, []⟩
    | .ok lock => convert sm root config lock

end Glide
end DepLock
