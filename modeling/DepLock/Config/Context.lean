import DepLock.Config.File
import DepLock.Source.CloneName

/-!
# The context of a run

A run happens in a working directory and an environment. From these follow its configuration, the
directories in which checkouts are searched for, and where sources are cached. A directory below
`src` of a search path has an import path.
-/

namespace DepLock

/-- What the environment tells: the user's home, where the program's own data is, and the lists of
search paths set for this program and for all Go tools. -/
structure Environment where
  home : String
  dataHome : String
  ownPath : Option String := none
  goPath : Option String := none

/-- Where and how a run happens. -/
structure Context where
  workingDirectory : String
  dataHome : String
  searchPaths : List String
  config : Config

/-- The nonempty paths of a list that is separated by colons. -/
def Path.ofList (paths : String) : List String := (Text.split ':' paths).filter (· ≠ "")

/-- A path and all paths above it, the nearest first. -/
def Path.ancestors (p : String) : List String :=
  let es := Path.elements p
  p :: (List.range es.length).reverse.map fun n => Path.ofElements (es.take n)

namespace Environment

/-- The search paths: those set for this program, or those configured, or those set for all Go
tools, or one in the user's home. -/
def searchPaths (env : Environment) (config : Config) : List String :=
  let choices := [(env.ownPath.map Path.ofList).getD [], config.searchPaths,
    (env.goPath.map Path.ofList).getD []]
  (choices.find? (· ≠ [])).getD [Path.join env.home "go"]

end Environment

namespace Context

/-- The context of a run in a working directory. -/
def of (files : FileTree) (env : Environment) (workingDirectory : String) : Context :=
  let config := files.mergedConfig (some (Config.pathIn env.home)) (Config.pathIn workingDirectory)
  { workingDirectory, dataHome := env.dataHome, searchPaths := env.searchPaths config, config }

/-- The directory in which sources are cached. -/
def cacheDirectory (c : Context) : String :=
  c.config.cacheDirectory.getD (Path.join c.dataHome "sources")

/-- The nearest directory with a manifest, from the working directory up. -/
def projectDirectory? (c : Context) (files : FileTree) : Option String :=
  (Path.ancestors c.workingDirectory).find? fun d => files.isFile (Path.join d Manifest.fileName)

/-- The import path of a directory, if it is below `src` of a search path. -/
def importPath? (c : Context) (files : FileTree) (directory : String) : Option String :=
  let directory := files.canonicalOrSelf directory
  c.searchPaths.findSome? fun root =>
    match Path.relativeTo? (files.canonicalOrSelf (Path.join root "src")) directory with
    | none | some [] => none
    | some es => some ("/".intercalate es)

end Context
end DepLock
