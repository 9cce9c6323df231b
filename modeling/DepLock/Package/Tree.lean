import DepLock.Order.SortedMap
import DepLock.ProjectRoot

/-!
# Package trees

A `PackageTree` holds the packages found under one directory by their import paths, each with its
imports or with the fault for which it cannot be used.
-/

namespace DepLock

/-- The name that a package declares and the paths that its files and its test files import. -/
structure Package where
  name : String
  imports : List String := []
  testImports : List String := []
  deriving DecidableEq, Repr

namespace Package

/-- Whether the package is a command. -/
def isMain (p : Package) : Bool := p.name = "main"

end Package

/-- Why a package cannot be used. -/
inductive PackageFault where
  | conflictingNames (path first second : String)
  | unreadable (path message : String)
  | missingInternal (path : String)
  | importsFaulty (path : String)
  deriving DecidableEq, Repr

/-- The text of a fault. -/
def PackageFault.message : PackageFault → String
  | conflictingNames path first second => s!"found packages `{first}` and `{second}` in {path}"
  | unreadable path message => s!"failed to read {path}: {message}"
  | missingInternal path => s!"import path `{path}` has no package in this tree"
  | importsFaulty path => s!"imports package `{path}`, which has errors"

/-- The packages under one import root, by import path. -/
structure PackageTree where
  root : String
  packages : SortedMap String (Except PackageFault Package)

namespace PackageTree

/-- The import root as a project root. -/
def projectRoot (t : PackageTree) : ProjectRoot := .ofString t.root

/-- Whether an import path belongs to the tree's own project. -/
def isInternal (t : PackageTree) (path : String) : Bool := t.projectRoot.contains path

/-- The tree without packages. -/
def ofRoot (root : String) : PackageTree := ⟨root, ∅⟩

end PackageTree

/-- Why the packages of a directory cannot be listed. -/
inductive ListError where
  | notFound (directory : String)
  | unreadable (directory : String)
  deriving DecidableEq, Repr

/-- The text of an error. -/
def ListError.message : ListError → String
  | notFound directory => s!"directory does not exist: {directory}"
  | unreadable directory => s!"failed to walk {directory}"

/-- A way to list the packages of a directory under an import root. -/
abbrev PackageLister := String → String → Except ListError PackageTree

end DepLock
