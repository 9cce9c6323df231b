import DepLock.Constraint
import DepLock.Order.SortedList
import DepLock.Order.SortedMap
import DepLock.Package.Ignore
import DepLock.ProjectRoot

/-!
# Manifests

A manifest declares what a project wants of others: constraints on direct dependencies, overrides
that hold wherever a project occurs, and which packages to leave out or to require. Manifests are
composed by `Manifest.merge`, where the overlay decides.
-/

namespace DepLock

/-- What is declared for one project: acceptable versions, and another place to fetch from. -/
structure ProjectRule where
  constraint : Constraint := .any
  source : Option String := none
  deriving DecidableEq, Inhabited

namespace ProjectRule

/-- A rule with a source, unless the source is empty. -/
def withSource (constraint : Constraint) (source : Option String) : ProjectRule :=
  ⟨constraint, ProjectId.nonEmptySource source⟩

end ProjectRule

/-- The declared state of a project's dependencies. -/
structure Manifest where
  constraints : SortedMap ProjectRoot ProjectRule := ∅
  overrides : SortedMap ProjectRoot ProjectRule := ∅
  ignored : List String := []
  required : List String := []
  deriving DecidableEq, Inhabited

namespace Manifest

/-- The name of the file that holds a manifest. -/
def fileName : String := "Wharf.toml"

/-- Whether nothing is declared. -/
def isEmpty (m : Manifest) : Bool :=
  m.constraints.isEmpty && m.overrides.isEmpty && m.ignored.isEmpty && m.required.isEmpty

/-- Whether a package is left out. -/
def ignores (m : Manifest) (path : String) : Bool := isIgnoredBy m.ignored path

/-- A list followed by the elements of another that are not there yet, each once. -/
def appendNew (base more : List String) : List String :=
  more.foldl (fun acc s => if s ∈ acc then acc else acc ++ [s]) base

/-- The declarations of both manifests. Where both have a rule for a project, the overlay's
holds. -/
def merge (base overlay : Manifest) : Manifest where
  constraints := base.constraints.overlay overlay.constraints
  overrides := base.overrides.overlay overlay.overrides
  ignored := appendNew base.ignored overlay.ignored
  required := appendNew base.required overlay.required

end Manifest
end DepLock
