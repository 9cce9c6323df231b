import DepLock.Package.Tree
import DepLock.Workspace

/-!
# Checkouts written down

A list of checkouts beneath one directory is a workspace in which each project has a directory,
named after its root. Listing the packages of such a directory gives the tree of the checkout.
-/

namespace DepLock

/-- A checkout of a project: what is known of its version, and its packages. -/
structure RecordedCheckout where
  root : ProjectRoot
  version : OnDiskVersion := .absent
  tree : Option PackageTree := none

namespace RecordedCheckout

/-- The directory of a project beneath another directory. -/
def directory (base : String) (root : ProjectRoot) : String := base ++ "/" ++ root.text

/-- The first checkout of a project. -/
def find? (cs : List RecordedCheckout) (root : ProjectRoot) : Option RecordedCheckout :=
  List.find? (fun c => c.root = root) cs

/-- The checkouts as a workspace. -/
def workspace (base : String) (cs : List RecordedCheckout) : Workspace :=
  { directory? := fun root => (find? cs root).map fun _ => directory base root
    version := fun root => ((find? cs root).map RecordedCheckout.version).getD .absent }

/-- The lister of the packages of the checkouts. -/
def lister (base : String) (cs : List RecordedCheckout) : PackageLister := fun path _ =>
  match cs.findSome? fun c => if directory base c.root = path then c.tree else none with
  | some tree => .ok tree
  | none => .error (.notFound path)

end RecordedCheckout
end DepLock
