import DepLock.Lock.Basic
import DepLock.Manifest.Basic
import DepLock.Order.SortedSet

/-!
# What discovery finds

`ProjectData` tells of a project's dependencies which packages are used, which projects are
imported directly, and which are checked out at which version. It gives a first manifest and a
first lock.
-/

namespace DepLock

/-- The dependencies of a project. -/
structure ProjectData where
  /-- The rules that the versions of checked-out direct dependencies imply. -/
  constraints : SortedMap ProjectRoot ProjectRule := ∅
  /-- The import paths used from each dependency. -/
  dependencies : SortedMap ProjectRoot (List String) := ∅
  /-- The projects that are imported directly. -/
  direct : SortedSet ProjectRoot := ∅
  /-- The versions of the checked-out dependencies. -/
  onDisk : SortedMap ProjectRoot Version := ∅
  /-- The dependencies without a usable checkout. -/
  notOnDisk : SortedSet ProjectRoot := ∅
  deriving DecidableEq, Inhabited

namespace ProjectData

/-- The data in which a path used from a project is added at the end of its list. -/
def record (d : ProjectData) (root : ProjectRoot) (path : String) : ProjectData :=
  { d with dependencies := d.dependencies.alter root fun paths => paths.getD [] ++ [path] }

/-- The data in which a project has no usable checkout. -/
def markNotOnDisk (d : ProjectData) (root : ProjectRoot) : ProjectData :=
  { d with onDisk := d.onDisk.erase root
           constraints := d.constraints.erase root
           notOnDisk := d.notOnDisk.add root }

/-- The data in which the used paths of each project are sorted and without repeats. -/
def normalize (d : ProjectData) : ProjectData :=
  { d with dependencies := d.dependencies.mapValues fun _ paths => sortDedup paths }

/-- The manifest of the implied constraints. -/
def manifest (d : ProjectData) : Manifest := { constraints := d.constraints }

/-- The lock of the checked-out dependencies at their versions, with the packages used from
them. -/
def lock (d : ProjectData) : Lock :=
  .ofProjects <| d.onDisk.toList.map fun (root, version) =>
    .of ⟨root, none⟩ version (((d.dependencies.get? root).getD []).map root.relative)

end ProjectData
end DepLock
