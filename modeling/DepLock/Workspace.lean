import DepLock.ProjectRoot
import DepLock.Version

/-!
# Workspaces

A workspace holds checkouts of projects. It knows the directory of a checkout and, if it can tell,
which version is checked out.
-/

namespace DepLock

/-- What a workspace knows of the version of a project. -/
inductive OnDiskVersion where
  | resolved (version : Version)
  | absent
  | unknown (reason : String)
  deriving DecidableEq, Repr

/-- The version, if it is known. -/
def OnDiskVersion.version? : OnDiskVersion → Option Version
  | resolved v => some v
  | _ => none

/-- The checkouts at hand. -/
structure Workspace where
  directory? : ProjectRoot → Option String
  version : ProjectRoot → OnDiskVersion

end DepLock
