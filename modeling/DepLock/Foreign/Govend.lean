import DepLock.Foreign.Glide

/-!
# govend

govend keeps one file `vendor.yml` that lists import paths with their revisions.
-/

namespace DepLock.Govend

/-- A dependency in a configuration. -/
structure Vendored where
  path : String
  rev : String

/-- The dependency that a node describes. -/
def Vendored.ofNode? (d : Yaml.Document) (x : Yaml.Node) : Option Vendored := do
  let fields ← d.fields? ["path", "rev"] x
  some { path := ← fields.getOr "path" "" d.string?, rev := ← fields.getOr "rev" "" d.string? }

/-- The dependencies that a document lists. -/
def ofDocument? (d : Yaml.Document) : Option (List Vendored) := do
  let fields ← d.rootFields? ["vendors"]
  fields.getOr "vendors" [] fun x => (d.elements? x).bind fun xs => xs.mapM (Vendored.ofNode? d)

/-- The path of the configuration of a project. -/
def configPath (directory : String) : String := Path.join directory "vendor.yml"

/-- The dependencies that a file lists. -/
def readConfig (files : FileTree) (path : String) : Except ImportError (List Vendored) := do
  match ofDocument? (← files.readYaml path) with
  | some vendors => .ok vendors
  | none => .error (.unparsable path)

/-- The entry of a dependency. -/
def Vendored.toEntry (v : Vendored) : Except ImportError ForeignEntry :=
  if v.path = "" then .error (.missingField .govend .configuration "Path")
  else if v.rev = "" then .error (.missingField .govend .configuration "Revision")
  else .ok { name := v.path, lockHint := v.rev }

/-- The manifest and the lock of some dependencies. -/
def convert (sm : SourceManager) (vendors : List Vendored) : Imported :=
  match vendors.mapM Vendored.toEntry with
  | .error e => ⟨.error e, []⟩
  | .ok es => match Conversion.addEntries sm true es {} with
    | .error e => ⟨.error e, []⟩
    | .ok (c, log) => ⟨.ok (c.manifest, c.lock), log⟩

/-- The import of the file in a directory. -/
def importFrom (files : FileTree) (sm : SourceManager) (directory : String) : Imported :=
  match readConfig files (configPath directory) with
  | .error e => ⟨.error e, []⟩
  | .ok vendors => convert sm vendors

end DepLock.Govend
