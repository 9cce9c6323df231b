import DepLock.Config.Basic
import DepLock.Files.Load
import DepLock.Toml.Parser

/-!
# Configuration files

A configuration file is a TOML document whose sections hold the settings. A `ConfigRecord` is what
such a file says; a setting that it leaves out is as by default. The configuration of a run comes
from a file for the user and one for the project, where a missing or broken file says nothing.
-/

namespace DepLock

/-- The settings that a configuration file holds. -/
structure ConfigRecord where
  searchPaths : Option (List String) := none
  isOffline : Option Bool := none
  enabledTools : Option (List String) := none
  cacheDirectory : Option String := none
  deriving DecidableEq, Repr

namespace ConfigRecord

/-- A setting in a section of a document. -/
def setting? {α : Type} (t : Toml.Table) (part name : String) (f : Toml.Value → Option α) :
    Option (Option α) := do
  match t.get? part with
  | none => some none
  | some v => Fields.optional (← v.fields? [name]) name f

/-- The record that a document describes. -/
def ofTable? (t : Toml.Table) : Option ConfigRecord := do
  some { searchPaths := ← setting? t "workspace" "paths" Toml.Value.strings?
         isOffline := ← setting? t "net" "offline" Toml.Value.boolean?
         enabledTools := ← setting? t "import" "enabled" Toml.Value.strings?
         cacheDirectory := ← setting? t "sources" "cache_dir" Toml.Value.string? }

/-- The configuration with what a record leaves out as by default. -/
def toConfig (r : ConfigRecord) : Config where
  searchPaths := r.searchPaths.getD ({} : Config).searchPaths
  isOffline := r.isOffline.getD ({} : Config).isOffline
  enabledTools := r.enabledTools.getD ({} : Config).enabledTools
  cacheDirectory := r.cacheDirectory

end ConfigRecord

namespace Config

/-- The configuration in the text of a file. -/
def parse? (text : String) : Option Config :=
  ((Toml.parse? text).bind ConfigRecord.ofTable?).map (·.toConfig)

/-- The path of the configuration file of a project or of a user's home. -/
def pathIn (directory : String) : String := Path.join (Path.join directory ".wharf") "config.toml"

end Config

namespace FileTree

/-- The configuration in a file. -/
def loadConfig (t : FileTree) (path : String) : Except LoadError Config :=
  t.load .config path fun text => match Config.parse? text with
    | some c => .ok c
    | none => .error .syntaxError

/-- The configuration in a file, or the default one if it cannot be loaded. -/
def loadConfigOrDefault (t : FileTree) (path : String) : Config :=
  match t.loadConfig path with
  | .ok c => c
  | .error _ => {}

/-- The configuration of a user's file, if there is a home for it, and over it a project's file. -/
def mergedConfig (t : FileTree) (userPath : Option String) (projectPath : String) : Config :=
  let user : Config := match userPath with
    | some path => ({} : Config).merge (t.loadConfigOrDefault path)
    | none => {}
  user.merge (t.loadConfigOrDefault projectPath)

end FileTree
end DepLock
