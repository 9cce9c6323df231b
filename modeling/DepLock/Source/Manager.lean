import DepLock.ProjectRoot
import DepLock.Constraint

/-!
# Sources of projects

A `SourceManager` deduces which project owns an import path, lists the versions of a project, and
fetches its source. `SourceError` is the cause for which one of these fails.
-/

namespace DepLock

/-- Why no root can be deduced from the form of an import path. -/
inductive DeductionFault where
  | tooFewElements
  | noMajorVersion
  | unknownHost
  deriving DecidableEq, Repr

/-- The text of a fault. -/
def DeductionFault.message : DeductionFault → String
  | tooFewElements => "expected host/owner/repo"
  | noMajorVersion => "gopkg.in paths need a .vN suffix"
  | unknownHost => "unknown host; add a VCS suffix (e.g. `.git`) to the repository element"

/-- Why a source manager fails. -/
inductive SourceError where
  | emptyImportPath
  | standardLibrary (path : String)
  | deduction (path : String) (fault : DeductionFault)
  | git (project : String)
  | offline (project : String)
  | invalidVersion (hint project : String)
  | fileSystem (path cause : String)
  deriving DecidableEq, Repr

/-- The text of an error. -/
def SourceError.message : SourceError → String
  | emptyImportPath => "import path is empty"
  | standardLibrary path => s!"`{path}` is part of the standard library"
  | deduction path fault => s!"unable to deduce repository root for `{path}`: {fault.message}"
  | git project => s!"git operation failed for {project}"
  | offline project => s!"{project} is not cached and the network is disabled"
  | invalidVersion hint project => s!"`{hint}` is not a valid version for {project}"
  | fileSystem path _ => s!"I/O error at {path}"

/-- What is known about projects from outside. -/
structure SourceManager where
  deduceRoot : String → Except SourceError ProjectRoot
  listVersions : ProjectId → Except SourceError (List Version)
  sync : ProjectId → Except SourceError Unit

end DepLock
