import DepLock.Foreign.Godep

/-!
# govendor

govendor keeps one file `vendor/vendor.json` that lists import paths with their revisions and
origins, and the paths and build tags that it ignores. Ignored paths become ignored patterns; build
tags have no counterpart.
-/

namespace DepLock.Govendor

/-- A dependency in a configuration. -/
structure Vendored where
  path : String
  revision : String
  origin : String

/-- A configuration. -/
structure Config where
  ignore : String
  packages : List Vendored

/-- The dependency that a value describes. -/
def Vendored.ofValue? (v : Json.Value) : Option Vendored := do
  let fields ← v.fields? ["path", "revision", "origin"]
  some { path := ← fields.getOr "path" "" Json.Value.string?
         revision := ← fields.getOr "revision" "" Json.Value.string?
         origin := ← fields.getOr "origin" "" Json.Value.string? }

/-- The configuration that a value describes. -/
def Config.ofValue? (v : Json.Value) : Option Config := do
  let fields ← v.fields? ["ignore", "package"]
  some { ignore := ← fields.getOr "ignore" "" Json.Value.string?
         packages := ← fields.getOr "package" [] fun v =>
           v.elements?.bind fun vs => vs.mapM Vendored.ofValue? }

/-- The path of the configuration of a project. -/
def configPath (directory : String) : String :=
  Path.join (Path.join directory "vendor") "vendor.json"

/-- The configuration in a file. -/
def readConfig (files : FileTree) (path : String) : Except ImportError Config := do
  match Config.ofValue? (← files.readJson path) with
  | some config => .ok config
  | none => .error (.unparsable path)

/-- The entry of a dependency. -/
def Vendored.toEntry (v : Vendored) : Except ImportError ForeignEntry :=
  if v.path = "" then .error (.missingField .govendor .configuration "Path")
  else .ok { name := v.path, source := v.origin, lockHint := v.revision }

/-- Whether a word of the ignore list is a path and not a build tag. -/
def isPath (word : String) : Bool := word.toList.contains '/'

/-- The path that an ignored word means: itself if it is in a project of its own, else a path of the
project. -/
def ignoredPath (sm : SourceManager) (root : ProjectRoot) (word : String) : String :=
  let word := Text.trimEndChar '/' word
  match sm.deduceRoot word with
  | .ok _ => word
  | .error _ => root.text ++ "/" ++ Text.trimStartChar '/' word

/-- The pattern for an ignored word. -/
def ignoredPattern (sm : SourceManager) (root : ProjectRoot) (word : String) : String :=
  ignoredPath sm root word ++ "*"

/-- The patterns for an ignore list. -/
def ignoredPatterns (sm : SourceManager) (root : ProjectRoot) (ignore : String) : List String :=
  ((Text.words ignore).filter isPath).map (ignoredPattern sm root)

/-- The warnings about the build tags in an ignore list. -/
def tagWarnings (ignore : String) : Log :=
  ((Text.words ignore).filter fun word => !isPath word).map fun tag =>
    .warn s!"govendor ignores the `{tag}` build tag; build tags are not supported and it will be dropped"

/-- The manifest and the lock of a configuration. -/
def convert (sm : SourceManager) (root : ProjectRoot) (config : Config) : Imported :=
  match config.packages.mapM Vendored.toEntry with
  | .error e => ⟨.error e, []⟩
  | .ok es => match Conversion.addEntries sm true es {} with
    | .error e => ⟨.error e, []⟩
    | .ok (c, log) =>
      let ignored := c.manifest.ignored ++ ignoredPatterns sm root config.ignore
      ⟨.ok ({ c.manifest with ignored }, c.lock), log ++ tagWarnings config.ignore⟩

/-- The import of the file in a directory. -/
def importFrom (files : FileTree) (sm : SourceManager) (directory : String) (root : ProjectRoot) :
    Imported :=
  match readConfig files (configPath directory) with
  | .error e => ⟨.error e, []⟩
  | .ok config => convert sm root config

end DepLock.Govendor
