import DepLock.Order.SortedList
import DepLock.ProjectRoot
import DepLock.Version

/-!
# Locks

A lock records to which version each project was resolved and which of its packages are used. The
operations here keep one entry for each root: `Lock.upsert` replaces the entry of the same root
where it stands.
-/

namespace DepLock

/-- A project at a version, with the packages used from it, named relative to its root. -/
structure LockedProject where
  id : ProjectId
  version : Version
  packages : List String
  deriving DecidableEq

namespace LockedProject

/-- A locked project whose packages are sorted and without repeats. -/
def of (id : ProjectId) (version : Version) (packages : List String) : LockedProject :=
  ⟨id, version, sortDedup packages⟩

/-- The root of the project. -/
def root (p : LockedProject) : ProjectRoot := p.id.root

end LockedProject

/-- Resolved projects, and a digest of the inputs that they were resolved from. -/
structure Lock where
  memo : String := ""
  projects : List LockedProject := []
  deriving DecidableEq, Inhabited

namespace Lock

/-- The name of the file that holds a lock. -/
def fileName : String := "Wharf.lock"

/-- The projects with `p` in the place of the one with its root, or at the end. -/
def upsertProject (p : LockedProject) : List LockedProject → List LockedProject
  | [] => [p]
  | q :: qs => if q.root = p.root then p :: qs else q :: upsertProject p qs

/-- The lock with `p` in the place of the entry with its root, or at the end. -/
def upsert (l : Lock) (p : LockedProject) : Lock :=
  { l with projects := upsertProject p l.projects }

/-- The lock of some projects, the last of several with one root. -/
def ofProjects (ps : List LockedProject) : Lock :=
  ps.foldl upsert {}

/-- The entry of a root. -/
def get? (l : Lock) (root : ProjectRoot) : Option LockedProject :=
  l.projects.find? (·.root = root)

/-- Whether a root has an entry. -/
def contains (l : Lock) (root : ProjectRoot) : Bool := (l.get? root).isSome

/-- The lock with its entries in the order of their roots. -/
def sort (l : Lock) : Lock :=
  { l with projects := l.projects.mergeSort fun a b => orderedLE a.root b.root }

/-- The entries of both locks; the overlay decides where both have one. The memo is that of the
base. -/
def merge (base overlay : Lock) : Lock :=
  overlay.projects.foldl upsert base

end Lock
end DepLock
