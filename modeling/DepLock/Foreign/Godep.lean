import DepLock.Foreign.Glide
import DepLock.Json.Parser

/-!
# godep

godep keeps one file `Godeps/Godeps.json` that lists import paths with their revisions, and in a
comment often the tag that the revision has.
-/

namespace DepLock

/-- The JSON value in a tool's file. -/
def FileTree.readJson (t : FileTree) (path : String) : Except ImportError Json.Value := do
  match Json.parse? (← t.readForeign path) with
  | some v => .ok v
  | none => .error (.unparsable path)

namespace Godep

/-- A dependency in a configuration. -/
structure Dep where
  importPath : String
  rev : String
  comment : String

/-- The dependency that a value describes. -/
def Dep.ofValue? (v : Json.Value) : Option Dep := do
  let fields ← v.fields? ["ImportPath", "Rev", "Comment"]
  some { importPath := ← fields.getOr "ImportPath" "" Json.Value.string?
         rev := ← fields.getOr "Rev" "" Json.Value.string?
         comment := ← fields.getOr "Comment" "" Json.Value.string? }

/-- The dependencies that a value lists, next to the import path of the project. -/
def ofValue? (v : Json.Value) : Option (List Dep) := do
  let fields ← v.fields? ["ImportPath", "Deps"]
  let _ ← fields.getOr "ImportPath" "" Json.Value.string?
  fields.getOr "Deps" [] fun v => v.elements?.bind fun vs => vs.mapM Dep.ofValue?

/-- The path of the configuration of a project. -/
def configPath (directory : String) : String :=
  Path.join (Path.join directory "Godeps") "Godeps.json"

/-- The dependencies that a file lists. -/
def readConfig (files : FileTree) (path : String) : Except ImportError (List Dep) := do
  match ofValue? (← files.readJson path) with
  | some deps => .ok deps
  | none => .error (.unparsable path)

/-- The entry of a dependency. -/
def Dep.toEntry (d : Dep) : Except ImportError ForeignEntry :=
  if d.importPath = "" then .error (.missingField .godep .configuration "ImportPath")
  else if d.rev = "" then .error (.missingField .godep .configuration "Rev")
  else .ok { name := d.importPath, lockHint := d.rev, constraintHint := d.comment }

/-- The manifest and the lock of some dependencies. -/
def convert (sm : SourceManager) (deps : List Dep) : Imported :=
  match deps.mapM Dep.toEntry with
  | .error e => ⟨.error e, []⟩
  | .ok es => match Conversion.addEntries sm true es {} with
    | .error e => ⟨.error e, []⟩
    | .ok (c, log) => ⟨.ok (c.manifest, c.lock), log⟩

/-- The import of the file in a directory. -/
def importFrom (files : FileTree) (sm : SourceManager) (directory : String) : Imported :=
  match readConfig files (configPath directory) with
  | .error e => ⟨.error e, []⟩
  | .ok deps => convert sm deps

end Godep
end DepLock
