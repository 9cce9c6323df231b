import DepLock.Files.Tree
import DepLock.Source.Manager

/-!
# Dependencies as other tools record them

Other tools keep their own files about a project's dependencies. What they say of one dependency is
a `ForeignEntry`. `ImportError` is why such files cannot be taken over.
-/

namespace DepLock

/-- A tool whose files can be taken over. -/
inductive ForeignTool where
  | glide
  | godep
  | govend
  | govendor
  deriving DecidableEq, Repr

namespace ForeignTool

/-- All tools, in the order in which their files are composed. -/
def all : List ForeignTool := [glide, godep, govend, govendor]

/-- The name of a tool. -/
def name : ForeignTool → String
  | glide => "glide"
  | godep => "godep"
  | govend => "govend"
  | govendor => "govendor"

end ForeignTool

/-- What a tool says of a dependency: an import path of it, where to fetch it from, to which revision
or tag it is locked, and which versions are acceptable. An empty text says nothing. -/
structure ForeignEntry where
  name : String
  source : String := ""
  lockHint : String := ""
  constraintHint : String := ""
  deriving DecidableEq, Repr

/-- A file of a tool: what it asks for, or what it has locked. -/
inductive ForeignFile where
  | configuration
  | lock
  deriving DecidableEq, Repr

/-- The word for a file. -/
def ForeignFile.word : ForeignFile → String
  | configuration => "configuration"
  | lock => "lock"

/-- Why the files of another tool cannot be taken over. -/
inductive ImportError where
  | missingField (tool : ForeignTool) (file : ForeignFile) (field : String)
  | unreadable (path : String) (fault : FileFault)
  | unparsable (path : String)
  | unknownRoot (importPath : String) (cause : SourceError)
  deriving DecidableEq, Repr

namespace ImportError

/-- The text of an error. -/
def message : ImportError → String
  | missingField tool file field => s!"invalid {tool.name} {file.word}: {field} is required"
  | unreadable path _ => s!"failed to read {path}"
  | unparsable path => s!"failed to parse {path}"
  | unknownRoot importPath _ => s!"could not determine the project root of `{importPath}`"

/-- The code of an error. -/
def code : ImportError → String
  | missingField _ _ _ => "wharf::import::invalid"
  | unreadable _ _ => "wharf::import::io"
  | unparsable _ => "wharf::import::parse"
  | unknownRoot _ _ => "wharf::import::deduce_root"

/-- What can be done about an error. -/
def help? : ImportError → Option String
  | missingField _ _ _ =>
    some "Fix the file, or retry with `--skip-tools` to ignore legacy configuration"
  | _ => none

/-- The text of what caused an error. -/
def cause? : ImportError → Option String
  | unreadable _ fault => some fault.message
  | unknownRoot _ cause => some cause.message
  | _ => none

end ImportError

/-- The text of a file of another tool. -/
def FileTree.readForeign (t : FileTree) (path : String) : Except ImportError String :=
  match t.readText path with
  | .ok text => .ok text
  | .error fault => .error (.unreadable path fault)

end DepLock
